import RockStream.Lib.HashMap
import RockStream.Lib.Weighted

/-!
Contract: weighted rows that a loop over the entries of a finite map emits.

Every entry emits rows of its own: the key of a row says which entry it came from. The
weight of a row is then read off at one entry.

Owns: the weight of the rows emitted by the entries of a map.

Does not own: what an entry emits.
-/

namespace RockStream.Lib.HashMap

open Weighted

variable {κ ν α : Type*} [DecidableEq κ] [DecidableEq α]

theorem weight_flatMap_toPairs (emit : κ × ν → List (α × Int)) (key : α → κ) (map : HashMap κ ν)
    (own : ∀ candidate value, map.lookup candidate = some value →
      ∀ row ∈ emit (candidate, value), key row.1 = candidate) (value : α) :
    weight (map.toPairs.flatMap emit) value =
      (map.lookup (key value)).elim 0 fun entry => weight (emit (key value, entry)) value := by
  rw [weight_flatMap, sum_toPairs, ← sumOver_single]
  refine sumOver_congr fun candidate entry found => ?_
  split
  · next same => rw [same]
  · next ne =>
    refine weight_eq_zero_of_absent fun row mem same => ne ?_
    rw [← own candidate entry found row mem, same]

end RockStream.Lib.HashMap
