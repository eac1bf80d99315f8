import RockStream.Arrangement

/-!
Contract: arrangements that hold the same rows under given keys.

Two arrangements that answer every lookup alike may still list their rows in different
orders and keep different empty buckets. Nothing an operator emits depends on either.

Owns:
- what one update does to a lookup, and when it succeeds;
- what a drained delta leaves in the arrangement and in the dirty set;
- `SameAt`, and its preservation by probes, updates and drains.

Does not own: what an operator does with the probed rows.
-/

namespace RockStream

open Lib List HashMap

variable {entry : Entry} {deltaW : Int} {rows : List (Entry × Int)} {joinKey : Bytes}

namespace Arrangement

/-! ## Updates by lookups -/

def updatedRow (stored : Option ArrRow) (rowBytes : Bytes) (deltaW : Int) : Option ArrRow :=
  match stored with
  | some row => if row.weight + deltaW = 0 then none else some ⟨row.rowBytes, row.weight + deltaW⟩
  | none => if deltaW = 0 then none else some ⟨rowBytes, deltaW⟩

private theorem lookup_updated {bucket after : HashMap (BitVec 128) ArrRow}
    (updated : Updated bucket entry deltaW after) (rowId : BitVec 128) :
    after.lookup rowId = if rowId = entry.rowId
      then updatedRow (bucket.lookup entry.rowId) entry.rowBytes deltaW
      else bucket.lookup rowId := by
  cases updated with
  | removed row found vanished =>
    rw [lookup_erase_eq, found]
    simp [updatedRow, vanished]
  | changed row found remains =>
    rw [lookup_insert_eq, found]
    simp [updatedRow, remains]
  | untouched absent noop =>
    split
    · next same => rw [same, absent, updatedRow, if_pos noop]
    · rfl
  | added absent effective =>
    rw [lookup_insert_eq, absent]
    simp [updatedRow, effective]

theorem find_update {arr next : Arrangement} {stateBytes nextBytes : Nat}
    (updated : arr.update stateBytes entry deltaW = .ok (next, nextBytes))
    (joinKey : Bytes) (rowId : BitVec 128) :
    next.find joinKey rowId = if joinKey = entry.joinKey ∧ rowId = entry.rowId
      then updatedRow (arr.find joinKey rowId) entry.rowBytes deltaW
      else arr.find joinKey rowId := by
  obtain ⟨bucket, changes, rebucketed⟩ := update_rebucketed updated
  rw [rebucketed.find_eq]
  by_cases sameKey : joinKey = entry.joinKey
  · subst sameKey
    rw [if_pos rfl, lookup_updated changes, ← find_eq_getD, ← find_eq_getD]
    by_cases sameId : rowId = entry.rowId
    · subst sameId
      simp
    · simp [sameId]
  · simp [sameKey]

theorem update_succeeds_iff (arr : Arrangement) (stateBytes : Nat) (entry : Entry) (deltaW : Int) :
    (∃ result, arr.update stateBytes entry deltaW = .ok result) ↔
      ∀ row, arr.find entry.joinKey entry.rowId = some row → InI64 (row.weight + deltaW) := by
  rw [find_eq_getD]
  unfold update
  simp only
  cases found : ((arr.lookup entry.joinKey).getD ∅).lookup entry.rowId with
  | none =>
    simp only [reduceCtorEq, false_implies, implies_true, iff_true]
    split <;> exact ⟨_, rfl⟩
  | some row =>
    simp only [Option.some.injEq, forall_eq']
    constructor
    · rintro ⟨result, done⟩
      obtain ⟨weight, added, _⟩ := Loop.bind_eq_ok.mp done
      exact (addI64_eq_ok.mp added).1
    · intro inside
      rw [show addI64 row.weight deltaW = .ok (row.weight + deltaW) from
        addI64_eq_ok.mpr ⟨inside, rfl⟩]
      simp only [bind, Except.bind]
      split
      · split <;> exact ⟨_, rfl⟩
      · exact ⟨_, rfl⟩

end Arrangement

/-! ## Drains by lookups -/

namespace Arranged

/-- A drain changes the rows of its entries and marks them dirty. -/
structure Drained (side final : Arranged) (rows : List (Entry × Int)) : Prop where
  kept : ∀ joinKey rowId, (∀ row ∈ rows, (row.1.joinKey, row.1.rowId) ≠ (joinKey, rowId)) →
    final.arr.find joinKey rowId = side.arr.find joinKey rowId
  dirty : ∀ row, row ∈ final.dirty ↔
    row ∈ side.dirty ∨ ∃ staged ∈ rows, (staged.1.joinKey, staged.1.rowId) = row

theorem drained_of_drain {side final : Arranged}
    (drained : side.drain rows = .ok final) : Drained side final rows := by
  refine Loop.foldlM_invariant (fun done current => Drained side current done) ?_
    ⟨fun _ _ _ => rfl, fun row => by simp⟩ drained
  intro done current staged next held applied
  obtain ⟨⟨arr, stateBytes⟩, updated, ended⟩ := Loop.bind_eq_ok.mp applied
  cases ended
  refine ⟨?_, ?_⟩
  · intro joinKey rowId apart
    have other : ¬ (joinKey = staged.1.joinKey ∧ rowId = staged.1.rowId) := by
      rintro ⟨rfl, rfl⟩
      exact apart staged (by simp) rfl
    rw [Arrangement.find_update updated, if_neg other]
    exact held.kept joinKey rowId fun row mem => apart row (by simp [mem])
  · intro row
    rw [AList.mem_insert, held.dirty]
    simp only [mem_append, mem_singleton, or_and_right, exists_or, exists_eq_left]
    rw [or_comm, or_assoc, @eq_comm _ row]

end Arranged

/-! ## The same rows -/

namespace Arrangement

/-- The two arrangements hold the same rows under a key. -/
def SameAt (joinKey : Bytes) (first second : Arrangement) : Prop :=
  ∀ rowId, first.find joinKey rowId = second.find joinKey rowId

theorem SameAt.symm {first second : Arrangement}
    (same : SameAt joinKey first second) : SameAt joinKey second first :=
  fun rowId => (same rowId).symm

theorem SameAt.probe_perm {first second : Arrangement}
    (same : SameAt joinKey first second) : (first.probe joinKey).Perm (second.probe joinKey) := by
  have rows : ∀ arr : Arrangement, arr.probe joinKey =
      (values ((arr.lookup joinKey).getD ∅)).map fun row => (row.rowBytes, row.weight) := by
    intro arr
    unfold probe
    cases arr.lookup joinKey <;> rfl
  rw [rows, rows]
  refine List.Perm.map _ (values_perm fun rowId => ?_)
  rw [← find_eq_getD, ← find_eq_getD]
  exact same rowId

/-- An update whose key holds the same rows keeps every key that does. -/
theorem update_simulates {first second : Arrangement}
    (same : SameAt entry.joinKey first second) (firstBytes secondBytes : Nat) (deltaW : Int) :
    Simulates (fun result result' => ∀ joinKey, SameAt joinKey first second →
        SameAt joinKey result.1 result'.1)
      (first.update firstBytes entry deltaW) (second.update secondBytes entry deltaW) := by
  intro result updated
  have fits := (update_succeeds_iff first firstBytes entry deltaW).mp ⟨result, updated⟩
  rw [same entry.rowId] at fits
  obtain ⟨result', updated'⟩ := (update_succeeds_iff second secondBytes entry deltaW).mpr fits
  refine ⟨result', updated', fun joinKey sameKey rowId => ?_⟩
  rw [find_update updated, find_update updated', sameKey rowId]

end Arrangement

namespace Arranged

structure AgreeOn (Keys : Bytes → Prop) (first second : Arranged) : Prop where
  rows : ∀ joinKey, Keys joinKey → Arrangement.SameAt joinKey first.arr second.arr
  dirty : ∀ row, row ∈ first.dirty ↔ row ∈ second.dirty

theorem drain_simulates {Keys : Bytes → Prop} {first second : Arranged}
    (agree : AgreeOn Keys first second) (inside : ∀ row ∈ rows, Keys row.1.joinKey) :
    Simulates (AgreeOn Keys) (first.drain rows) (second.drain rows) := by
  refine Simulates.foldlM agree fun staged mem current current' agreeing => ?_
  refine (Arrangement.update_simulates (agreeing.rows _ (inside staged mem)) _ _ _).bind
    fun result result' kept => ?_
  refine Simulates.pure ⟨fun joinKey isKey => kept joinKey (agreeing.rows joinKey isKey), ?_⟩
  intro row
  rw [AList.mem_insert, AList.mem_insert, agreeing.dirty]

end Arranged

end RockStream
