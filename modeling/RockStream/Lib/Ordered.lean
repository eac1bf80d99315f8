import Mathlib

/-!
Contract: lists in the order of a number, cut at values of that number.

Owns: dropping the least items, and a range as two ranges behind each other.

Does not own: how a list comes to be in order.
-/

namespace RockStream.Lib

open List

variable {α : Type*} {key : α → Nat}
variable {items : List α}

/-- The items of a list stand in the order of a number. -/
def Ordered (key : α → Nat) (items : List α) : Prop :=
  items.Pairwise fun earlier later => key earlier ≤ key later

namespace Ordered

theorem tail {head : α} (ordered : Ordered key (head :: items)) : Ordered key items :=
  (pairwise_cons.mp ordered).2

theorem head_le {head : α} (ordered : Ordered key (head :: items)) :
    ∀ item ∈ items, key head ≤ key item :=
  (pairwise_cons.mp ordered).1

theorem filter (ordered : Ordered key items) (test : α → Bool) : Ordered key (items.filter test) :=
  List.Pairwise.filter test ordered

theorem append {left right : List α} (first : Ordered key left) (second : Ordered key right)
    (apart : ∀ item ∈ left, ∀ other ∈ right, key item ≤ key other) : Ordered key (left ++ right) :=
  pairwise_append.mpr ⟨first, second, apart⟩

theorem dropWhile_eq_filter {least : Nat} (ordered : Ordered key items)
    (bound : ∀ item ∈ items, least ≤ key item) :
    items.dropWhile (key · = least) = items.filter (least < key ·) := by
  induction items with
  | nil => rfl
  | cons head items ih =>
    have headBound := bound head mem_cons_self
    by_cases isLeast : key head = least
    · rw [dropWhile_cons_of_pos (by simpa using isLeast),
        filter_cons_of_neg (by simp [isLeast])]
      exact ih ordered.tail fun item mem => bound item (mem_cons_of_mem _ mem)
    · rw [dropWhile_cons_of_neg (by simp [isLeast]), eq_comm]
      refine filter_eq_self.mpr fun item mem => decide_eq_true ?_
      rcases mem_cons.mp mem with rfl | later
      · omega
      · have := ordered.head_le item later
        omega

theorem filter_range (ordered : Ordered key items) {low middle high : Nat}
    (lower : low ≤ middle) (upper : middle ≤ high) :
    items.filter (fun item => low < key item ∧ key item ≤ high) =
      items.filter (fun item => low < key item ∧ key item ≤ middle) ++
        items.filter (fun item => middle < key item ∧ key item ≤ high) := by
  induction items with
  | nil => rfl
  | cons head items ih =>
    by_cases below : key head ≤ middle
    · rw [filter_cons, filter_cons, filter_cons, ih ordered.tail]
      have notAbove : ¬ middle < key head := by omega
      by_cases inside : low < key head
      · have atMost : key head ≤ high := by omega
        simp [below, inside, atMost, notAbove]
      · simp [inside, notAbove]
    · -- From here on nothing is in the lower part.
      have none : ∀ item ∈ head :: items, ¬ (low < key item ∧ key item ≤ middle) := by
        intro item mem inside
        rcases mem_cons.mp mem with rfl | later
        · omega
        · have := ordered.head_le item later
          omega
      have lowerPart : (head :: items).filter
          (fun item => low < key item ∧ key item ≤ middle) = [] :=
        filter_eq_nil_iff.mpr fun item mem => by simpa using none item mem
      rw [lowerPart, nil_append]
      refine filter_congr fun item mem => ?_
      have := none item mem
      rw [decide_eq_decide]
      omega

end Ordered

end RockStream.Lib
