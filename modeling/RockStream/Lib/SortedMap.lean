import Mathlib

/-!
Contract: maps with number keys, as the list of their entries in the order of the keys.

Owns: `SortedMap`, whose entries are in order by construction, `insert` and `append`; that
under fresh keys both only add entries, so that sums over the entries add up.

Does not own: lookup and removal of single keys.
-/

namespace RockStream.Lib

open List

universe u

/-- A finite map from numbers, with its entries in the order of their keys. -/
structure SortedMap (ν : Type u) where
  entries : List (Nat × ν)
  sorted : entries.Pairwise fun left right => left.1 < right.1

variable {ν : Type u}
variable {entries : List (Nat × ν)} {entry : Nat × ν} {key : Nat} {map : SortedMap ν}

theorem filter_key_of_sorted (sorted : entries.Pairwise fun left right => left.1 < right.1)
    (mem : entry ∈ entries) : entries.filter (·.1 = entry.1) = [entry] := by
  induction entries with
  | nil => cases mem
  | cons head rest ih =>
    obtain ⟨least, sortedRest⟩ := pairwise_cons.mp sorted
    rcases mem_cons.mp mem with rfl | later
    · rw [filter_cons_of_pos (by simp)]
      congr 1
      refine filter_eq_nil_iff.mpr fun other isOther => ?_
      simpa using Nat.ne_of_gt (least other isOther)
    · rw [filter_cons_of_neg (by simpa using Nat.ne_of_lt (least entry later))]
      exact ih sortedRest later

namespace SortedMap

def empty : SortedMap ν := ⟨[], .nil⟩

def lastKey (map : SortedMap ν) : Option Nat := (map.entries.getLast?).map Prod.fst

/-- Insertion into a sorted list of entries; an entry with the same key is replaced. -/
def insertEntry (key : Nat) (value : ν) : List (Nat × ν) → List (Nat × ν)
  | [] => [(key, value)]
  | head :: rest =>
    if key < head.1 then (key, value) :: head :: rest
    else if key = head.1 then (key, value) :: rest
    else head :: insertEntry key value rest

theorem mem_insertEntry {value : ν}
    (mem : entry ∈ insertEntry key value entries) : entry = (key, value) ∨ entry ∈ entries := by
  induction entries with
  | nil => exact .inl (mem_singleton.mp mem)
  | cons head rest ih =>
    unfold insertEntry at mem
    split at mem
    · exact mem_cons.mp mem
    · split at mem
      · exact (mem_cons.mp mem).imp_right (mem_cons_of_mem _)
      · rcases mem_cons.mp mem with rfl | later
        · exact .inr mem_cons_self
        · exact (ih later).imp_right (mem_cons_of_mem _)

theorem sorted_insertEntry (key : Nat) (value : ν)
    (sorted : entries.Pairwise fun left right => left.1 < right.1) :
    (insertEntry key value entries).Pairwise fun left right => left.1 < right.1 := by
  induction entries with
  | nil => exact pairwise_singleton _ _
  | cons head rest ih =>
    obtain ⟨least, sortedRest⟩ := pairwise_cons.mp sorted
    unfold insertEntry
    split
    · rename_i before
      refine pairwise_cons.mpr ⟨fun entry mem => ?_, sorted⟩
      rcases mem_cons.mp mem with rfl | later
      · exact before
      · exact Nat.lt_trans before (least entry later)
    · split
      · rename_i same
        exact pairwise_cons.mpr ⟨fun entry mem => same ▸ least entry mem, sortedRest⟩
      · rename_i notBefore notSame
        refine pairwise_cons.mpr ⟨fun entry mem => ?_, ih sortedRest⟩
        rcases mem_insertEntry mem with rfl | later
        · exact lt_of_le_of_ne (not_lt.mp notBefore) (Ne.symm notSame)
        · exact least entry later

def insert (map : SortedMap ν) (key : Nat) (value : ν) : SortedMap ν :=
  ⟨insertEntry key value map.entries, sorted_insertEntry key value map.sorted⟩

/-- The entries of another map are inserted. -/
def append (map other : SortedMap ν) : SortedMap ν :=
  other.entries.foldl (fun map entry => map.insert entry.1 entry.2) map

def Fresh (map : SortedMap ν) (key : Nat) : Prop := ∀ entry ∈ map.entries, entry.1 ≠ key

theorem insertEntry_perm {value : ν} (fresh : ∀ entry ∈ entries, entry.1 ≠ key) :
    (insertEntry key value entries).Perm ((key, value) :: entries) := by
  induction entries with
  | nil => exact List.Perm.refl _
  | cons head rest ih =>
    unfold insertEntry
    split
    · exact List.Perm.refl _
    · rw [if_neg (Ne.symm (fresh head mem_cons_self))]
      exact ((ih fun entry mem => fresh entry (mem_cons_of_mem _ mem)).cons
        head).trans (List.Perm.swap _ _ _)

theorem insert_perm (value : ν) (fresh : map.Fresh key) :
    (map.insert key value).entries.Perm ((key, value) :: map.entries) :=
  insertEntry_perm fresh

theorem append_perm (map other : SortedMap ν) (fresh : ∀ entry ∈ other.entries, map.Fresh entry.1) :
    (map.append other).entries.Perm (map.entries ++ other.entries) := by
  unfold append
  obtain ⟨entries, sorted⟩ := other
  induction entries generalizing map with
  | nil => simp
  | cons head rest ih =>
    obtain ⟨least, sortedRest⟩ := pairwise_cons.mp sorted
    have inserted := insert_perm head.2 (fresh head mem_cons_self)
    refine (ih (map.insert head.1 head.2) sortedRest ?_).trans ?_
    · intro entry mem other isOther
      rcases mem_cons.mp (inserted.mem_iff.mp isOther) with rfl | old
      · exact Nat.ne_of_lt (least entry mem)
      · exact fresh entry (mem_cons_of_mem _ mem) other old
    · exact (inserted.append_right rest).trans perm_middle.symm

theorem lastKey_eq_some {last : Nat} (isLast : map.lastKey = some last) :
    (∃ value, (last, value) ∈ map.entries) ∧ ∀ entry ∈ map.entries, entry.1 ≤ last := by
  obtain ⟨greatest, isGreatest, rfl⟩ := Option.map_eq_some_iff.mp isLast
  obtain ⟨before, parts⟩ := getLast?_eq_some_iff.mp isGreatest
  refine ⟨⟨greatest.2, by rw [parts]; simp⟩, fun entry mem => ?_⟩
  have sorted := map.sorted
  rw [parts] at mem sorted
  rcases mem_append.mp mem with early | same
  · exact Nat.le_of_lt
      ((pairwise_append.mp sorted).2.2 entry early greatest (mem_singleton.mpr rfl))
  · rw [mem_singleton.mp same]

theorem lastKey_eq_none : map.lastKey = none ↔ map.entries = [] := by
  rw [lastKey, Option.map_eq_none_iff, getLast?_eq_none_iff]

end SortedMap

end RockStream.Lib
