import Mathlib

/-!
Contract: lists in which every item is repeated.

Owns:
- `expand`, the items of a list repeated by a count;
- the first items of an expanded list: those of the head, then those of the rest.

Does not own: how the items are ordered.
-/

namespace RockStream.Lib.Multiplicity

open List

universe u

variable {α : Type u}
variable {count : α → Nat} {items : List α} {value item : α}

def expand (count : α → Nat) (items : List α) : List α :=
  items.flatMap fun item => replicate (count item) item

theorem mem_expand : value ∈ expand count items ↔ value ∈ items ∧ count value ≠ 0 := by
  simp only [expand, mem_flatMap, mem_replicate]
  constructor
  · rintro ⟨item, mem, nonZero, rfl⟩
    exact ⟨mem, nonZero⟩
  · rintro ⟨mem, nonZero⟩
    exact ⟨value, mem, nonZero, rfl⟩

theorem expand_congr {first second : α → Nat} (agree : ∀ item ∈ items, first item = second item) :
    expand first items = expand second items := by
  refine flatMap_congr fun item mem => ?_
  rw [agree item mem]

theorem take_expand_cons (count : α → Nat) (item : α) (items : List α) (limit : Nat) :
    (expand count (item :: items)).take limit = replicate (min limit (count item)) item ++
        (expand count items).take (limit - count item) := by
  rw [expand, flatMap_cons, take_append, take_replicate, length_replicate]
  rfl

section Count

variable [BEq α] [LawfulBEq α]

/-- The first items hold the head up to its count. -/
theorem count_take_expand_self (fresh : item ∉ items) (limit : Nat) :
    ((expand count (item :: items)).take limit).count item = min limit (count item) := by
  have absent : item ∉ (expand count items).take (limit - count item) := by
    intro inside
    exact fresh (mem_expand.mp (mem_of_mem_take inside)).1
  rw [take_expand_cons, count_append, count_replicate_self,
    count_eq_zero_of_not_mem absent, Nat.add_zero]

/-- Another item starts after the head. -/
theorem count_take_expand_of_ne (items : List α) (ne : value ≠ item) (limit : Nat) :
    ((expand count (item :: items)).take limit).count value =
      ((expand count items).take (limit - count item)).count value := by
  rw [take_expand_cons, count_append, count_replicate, if_neg, Nat.zero_add]
  simpa using Ne.symm ne

theorem count_take_expand_of_not_mem
    (absent : value ∉ items) (limit : Nat) : ((expand count items).take limit).count value = 0 :=
  count_eq_zero_of_not_mem fun inside =>
    absent (mem_expand.mp (mem_of_mem_take inside)).1

end Count

end RockStream.Lib.Multiplicity
