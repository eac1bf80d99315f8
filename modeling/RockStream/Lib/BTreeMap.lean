import Mathlib

/-!
Contract: ordered maps with a first key.

An ordered map is the standard library's balanced tree under the type's own
comparison. Reads after writes are restated with an equality test in place of a
comparison that returns `eq`.

Owns:
- `firstKey`, `map.keys().next()`, and its characterisation as the least key;
- `get_insert`, `get_erase` and `isEmpty_iff`.

Does not own: the balancing.
-/

namespace RockStream.Lib

universe u v

abbrev BTreeMap (κ : Type u) (ν : Type v) [Ord κ] := Std.TreeMap κ ν

namespace BTreeMap

variable {κ : Type u} {ν : Type v} [Ord κ]

def firstKey (map : BTreeMap κ ν) : Option κ := map.keys.head?

variable [Std.TransOrd κ] {map : BTreeMap κ ν}

theorem isEmpty_iff : map.isEmpty = true ↔ ∀ key : κ, map[key]? = none := by
  rw [Std.TreeMap.isEmpty_iff_forall_not_mem]
  refine forall_congr' fun key => ?_
  rw [Std.TreeMap.mem_iff_isSome_getElem?, Option.not_isSome_iff_eq_none]

variable [Std.LawfulEqOrd κ]

theorem get_insert [DecidableEq κ] (map : BTreeMap κ ν) (key query : κ) (value : ν) :
    (map.insert key value)[query]? = if query = key then some value else map[query]? := by
  rw [Std.TreeMap.getElem?_insert]
  exact if_congr (Std.compare_eq_iff_eq.trans eq_comm) rfl rfl

theorem get_erase [DecidableEq κ] (map : BTreeMap κ ν) (key query : κ) :
    (map.erase key)[query]? = if query = key then none else map[query]? := by
  rw [Std.TreeMap.getElem?_erase]
  exact if_congr (Std.compare_eq_iff_eq.trans eq_comm) rfl rfl

theorem firstKey_eq_none_iff : firstKey map = none ↔ ∀ key : κ, map[key]? = none := by
  rw [firstKey, List.head?_eq_none_iff, List.eq_nil_iff_forall_not_mem]
  refine forall_congr' fun key => ?_
  rw [Std.TreeMap.mem_keys, Std.TreeMap.mem_iff_isSome_getElem?, Option.not_isSome_iff_eq_none]

theorem firstKey_eq_some {key : κ} (first : firstKey map = some key) : (map[key]?).isSome = true ∧
      ∀ other : κ, (map[other]?).isSome = true → other = key ∨ compare key other = .lt := by
  have ordered : map.keys.Pairwise fun left right => compare left right = .lt :=
    Std.TreeMap.ordered_keys
  have listed : ∀ other : κ, other ∈ map.keys ↔ (map[other]?).isSome = true := fun other => by
    rw [Std.TreeMap.mem_keys, Std.TreeMap.mem_iff_isSome_getElem?]
  obtain ⟨rest, split⟩ := List.head?_eq_some_iff.mp first
  rw [split, List.pairwise_cons] at ordered
  refine ⟨(listed key).mp (by simp [split]), fun other present => ?_⟩
  have mem := (listed other).mpr present
  rw [split] at mem
  rcases List.mem_cons.mp mem with same | later
  · exact .inl same
  · exact .inr (ordered.1 other later)

end BTreeMap

end RockStream.Lib
