import RockStream.Lib.HashMap
import RockStream.Lib.Weighted

/-!
Contract: maps of integer weights as weighted collections.

A map from keys to integers, read with zero for an absent key, is a weight function.
`Counts` relates it to the weighted collection it was built from.

Owns:
- `Counts` and its preservation by the two ways a weight is written back: `insert`, and
  `erase` when the new weight is zero;
- the reading of a map's pairs as a weighted collection.

Does not own: which of the two a caller uses.
-/

namespace RockStream.Lib

open Weighted HashMap

universe u

theorem sumOver_integrate {κ ν α : Type*} (term : κ → ν → α → Int) (map : HashMap κ ν)
    (rows : List (α × Int)) : map.sumOver (fun key value => integrate (term key value) rows) =
      integrate (fun item => map.sumOver fun key value => term key value item) rows := by
  induction rows with
  | nil => simp [sumOver]
  | cons row rows ih =>
    rw [integrate_cons, ← ih]
    simp only [sumOver, integrate_cons, List.sum_map_add, List.sum_map_mul_right]

variable {κ : Type u} [DecidableEq κ] {map : HashMap κ Int} {rows : List (κ × Int)}

/-- The map holds the accumulated weight of every key. -/
def Counts (map : HashMap κ Int) (rows : List (κ × Int)) : Prop :=
  ∀ key, (map.lookup key).getD 0 = weight rows key

theorem weight_toPairs (map : HashMap κ Int) (key : κ) :
    weight map.toPairs key = (map.lookup key).getD 0 := by
  have single := sumOver_single (fun value : Int => value) map key
  unfold weight integrate
  rw [sum_toPairs]
  simp only [ite_mul, one_mul, zero_mul, single]
  cases map.lookup key <;> rfl

namespace Counts

theorem empty : Counts (∅ : HashMap κ Int) [] := fun _ => rfl

theorem toPairs (map : HashMap κ Int) : Counts map map.toPairs :=
  fun key => (weight_toPairs map key).symm

theorem insert (counts : Counts map rows) {key : κ} {delta total : Int}
    (sum : total = (map.lookup key).getD 0 + delta) :
    Counts (map.insert key total) (rows ++ [(key, delta)]) := by
  intro candidate
  rw [lookup_insert_eq, weight_append, ← counts candidate, sum]
  by_cases same : candidate = key
  · subst same
    simp
  · simp [same, Ne.symm same]

/-- So does removing the key when the sum is zero. -/
theorem erase (counts : Counts map rows) {key : κ} {delta : Int}
    (vanished : (map.lookup key).getD 0 + delta = 0) :
    Counts (map.erase key) (rows ++ [(key, delta)]) := by
  intro candidate
  rw [lookup_erase_eq, weight_append, ← counts candidate]
  by_cases same : candidate = key
  · subst same
    simp [vanished]
  · simp [same, Ne.symm same]

theorem append {both deltas : HashMap κ Int} {added : List (κ × Int)}
    (counted : Counts both (map.toPairs ++ deltas.toPairs)) (counts : Counts map rows)
    (deltaCounts : Counts deltas added) : Counts both (rows ++ added) := by
  intro key
  rw [counted key, weight_append, weight_append, weight_toPairs, weight_toPairs, counts key,
    deltaCounts key]

theorem integrate_toPairs (counts : Counts map rows) (test : κ → Int) :
    integrate test map.toPairs = integrate test rows :=
  integrate_eq_of_weight_eq test fun key => (weight_toPairs map key).trans (counts key)

end Counts

end RockStream.Lib
