import RockStream.KeyCapsule
import RockStream.Lib.HashMap

/-!
Contract: the weight-tracking arrangements of the join operators.

`JoinState` and `OuterJoinState` each hold two maps from join key to row id to
`ArrRow`, updated by four copies of one function. This module is that function and
what it means: after any sequence of updates an arrangement represents the list of
weighted entries it was fed, as long as no two different rows share key and id.

Owns:
- `ArrRow`, `Arrangement`, `Entry`, `update`, `probe` and `entryCount`;
- `total`, the sum of a test over the stored rows, and `Represents`;
- the preservation of `Represents` by one update and by a loop of updates.

Does not own: how a row becomes an entry.
-/

namespace RockStream

open Lib Loop Lib.Weighted List HashMap

variable {arr leftArr rightArr : Arrangement} {stateBytes nextBytes : Nat} {entry : Entry}
  {deltaW : Int} {joinKey : Bytes} {rowId : BitVec 128} {row : ArrRow} {Involved : Entry → Prop}
  {rows : List (Entry × Int)}

variable {entries : List (Entry × Int)}

/-- `stable_row_id`: FNV-1a over the operator id, the join key and the row. -/
def stableRowId (opId : UInt64) (joinKey rowBytes : Bytes) : BitVec 128 :=
  fnv1a128 (Bytes.beBytes 8 opId.toNat ++ joinKey ++ rowBytes)

structure ArrRow where
  rowBytes : Bytes
  weight : Int
deriving DecidableEq

/-- `join_key → row_id → row`. -/
abbrev Arrangement := HashMap Bytes (HashMap (BitVec 128) ArrRow)

@[ext] structure Entry where
  joinKey : Bytes
  rowId : BitVec 128
  rowBytes : Bytes
deriving DecidableEq

namespace Arrangement

def find (arr : Arrangement) (joinKey : Bytes) (rowId : BitVec 128) : Option ArrRow :=
  (arr.lookup joinKey).bind fun bucket => bucket.lookup rowId

def probe (arr : Arrangement) (joinKey : Bytes) : List (Bytes × Int) :=
  match arr.lookup joinKey with
  | none => []
  | some bucket => bucket.values.map fun row => (row.rowBytes, row.weight)

def entryCount (arr : Arrangement) : Nat :=
  (arr.values.map HashMap.size).sum

/-- `update_left` / `update_right`: add a weight to a row; a row whose weight reaches
zero is removed, and with it a bucket it leaves empty. A zero weight for an unknown
row still leaves its empty bucket behind, whose key bytes stay counted. -/
def update (arr : Arrangement) (stateBytes : Nat) (entry : Entry) (deltaW : Int) :
    Exec (Arrangement × Nat) :=
  let keyLen := entry.joinKey.length
  let bucket := (arr.lookup entry.joinKey).getD ∅
  let stateBytes := if arr.lookup entry.joinKey = none then stateBytes + keyLen else stateBytes
  match bucket.lookup entry.rowId with
  | some row => do
    let weight ← addI64 row.weight deltaW
    if weight = 0 then
      let bucket := bucket.erase entry.rowId
      let stateBytes := stateBytes - (16 + 8 + row.rowBytes.length)
      if bucket.entries = [] then
        pure (arr.erase entry.joinKey, stateBytes - keyLen)
      else
        pure (arr.insert entry.joinKey bucket, stateBytes)
    else
      pure (arr.insert entry.joinKey (bucket.insert entry.rowId { row with weight }), stateBytes)
  | none =>
    if deltaW ≠ 0 then
      pure (arr.insert entry.joinKey (bucket.insert entry.rowId ⟨entry.rowBytes, deltaW⟩),
        stateBytes + (16 + 8 + entry.rowBytes.length))
    else
      pure (arr.insert entry.joinKey bucket, stateBytes)

/-! ## What an update does to sums and to lookups -/

def bucketTotal (test : Entry → Int) (joinKey : Bytes) (bucket : HashMap (BitVec 128) ArrRow) :
    Int :=
  bucket.sumOver fun rowId row => test ⟨joinKey, rowId, row.rowBytes⟩ * row.weight

def total (test : Entry → Int) (arr : Arrangement) : Int :=
  arr.sumOver fun joinKey bucket => bucketTotal test joinKey bucket

theorem find_eq_getD (arr : Arrangement) (joinKey : Bytes) (rowId : BitVec 128) :
    find arr joinKey rowId = ((arr.lookup joinKey).getD ∅).lookup rowId := by
  unfold find
  cases arr.lookup joinKey <;> rfl

theorem find_insert (arr : Arrangement) (joinKey otherKey : Bytes)
    (bucket : HashMap (BitVec 128) ArrRow) (rowId : BitVec 128) :
    find (arr.insert joinKey bucket) otherKey rowId =
      if otherKey = joinKey then bucket.lookup rowId else find arr otherKey rowId := by
  unfold find
  rw [lookup_insert_eq]
  split <;> rfl

/-- What an update leaves in the bucket of its key. -/
inductive Updated (bucket : HashMap (BitVec 128) ArrRow) (entry : Entry) (deltaW : Int) :
    HashMap (BitVec 128) ArrRow → Prop
  | removed (row : ArrRow) (found : bucket.lookup entry.rowId = some row)
      (vanished : row.weight + deltaW = 0) :
      Updated bucket entry deltaW (bucket.erase entry.rowId)
  | changed (row : ArrRow) (found : bucket.lookup entry.rowId = some row)
      (remains : row.weight + deltaW ≠ 0) :
      Updated bucket entry deltaW
        (bucket.insert entry.rowId ⟨row.rowBytes, row.weight + deltaW⟩)
  | untouched (absent : bucket.lookup entry.rowId = none) (noop : deltaW = 0) :
      Updated bucket entry deltaW bucket
  | added (absent : bucket.lookup entry.rowId = none) (effective : deltaW ≠ 0) :
      Updated bucket entry deltaW (bucket.insert entry.rowId ⟨entry.rowBytes, deltaW⟩)

/-- An arrangement differs from another at most in the bucket of one key. -/
structure Rebucketed (arr next : Arrangement) (joinKey : Bytes)
    (bucket : HashMap (BitVec 128) ArrRow) : Prop where
  find_eq : ∀ otherKey rowId, next.find otherKey rowId =
    if otherKey = joinKey then bucket.lookup rowId else arr.find otherKey rowId
  total_eq : ∀ test, total test next =
    total test arr - bucketTotal test joinKey ((arr.lookup joinKey).getD ∅) +
      bucketTotal test joinKey bucket

theorem rebucketed_insert (arr : Arrangement) (joinKey : Bytes)
    (bucket : HashMap (BitVec 128) ArrRow) :
    Rebucketed arr (arr.insert joinKey bucket) joinKey bucket := by
  refine ⟨fun otherKey rowId => find_insert arr joinKey otherKey bucket rowId, fun test => ?_⟩
  unfold total
  rw [sumOver_insert_eq]
  cases arr.lookup joinKey <;> rfl

theorem rebucketed_erase (arr : Arrangement) (joinKey : Bytes) :
    Rebucketed arr (arr.erase joinKey) joinKey ∅ := by
  refine ⟨fun otherKey rowId => ?_, fun test => ?_⟩
  · unfold find
    rw [lookup_erase_eq]
    split <;> rfl
  · unfold total
    rw [sumOver_erase_eq]
    cases arr.lookup joinKey <;> simp [bucketTotal]

theorem update_rebucketed {next : Arrangement}
    (updated : update arr stateBytes entry deltaW = .ok (next, nextBytes)) :
    ∃ bucket, Updated ((arr.lookup entry.joinKey).getD ∅) entry deltaW bucket ∧
      Rebucketed arr next entry.joinKey bucket := by
  unfold update at updated
  simp only at updated
  generalize old : (arr.lookup entry.joinKey).getD ∅ = bucket at updated ⊢
  cases found : bucket.lookup entry.rowId with
  | some row =>
    rw [found] at updated
    obtain ⟨weight, added, updated⟩ := bind_eq_ok.mp updated
    obtain ⟨_, rfl⟩ := addI64_eq_ok.mp added
    split at updated
    · next vanished =>
      refine ⟨bucket.erase entry.rowId, .removed row found vanished, ?_⟩
      split at updated
      · next hollow =>
        cases updated
        rw [show bucket.erase entry.rowId = ∅ from AList.ext hollow]
        exact rebucketed_erase arr entry.joinKey
      · cases updated
        exact rebucketed_insert arr entry.joinKey _
    · next remains =>
      cases updated
      exact ⟨_, .changed row found remains, rebucketed_insert arr entry.joinKey _⟩
  | none =>
    rw [found] at updated
    by_cases noop : deltaW = 0
    · simp only [noop, ne_eq, not_true_eq_false, if_false] at updated
      cases updated
      exact ⟨_, .untouched found noop, rebucketed_insert arr entry.joinKey _⟩
    · simp only [ne_eq, noop, not_false_eq_true, if_true] at updated
      cases updated
      exact ⟨_, .added found noop, rebucketed_insert arr entry.joinKey _⟩

theorem update_error {fault : Fault} (failed : update arr stateBytes entry deltaW = .error fault) :
    fault = .overflow := by
  unfold update at failed
  simp only at failed
  split at failed
  · rcases bind_eq_error.mp failed with overflowed | ⟨_, _, failed⟩
    · exact checkI64_error overflowed
    · split at failed
      · split at failed <;> cases failed
      · cases failed
  · split at failed <;> cases failed

/-! ## Representation of a list of weighted entries -/

/-- The arrangement holds the accumulated non-zero weights of a list of entries. -/
structure Represents (arr : Arrangement) (entries : List (Entry × Int)) : Prop where
  sums : ∀ test, total test arr = integrate test entries
  nonzero : ∀ joinKey rowId row, arr.find joinKey rowId = some row → row.weight ≠ 0

theorem represents_empty : Represents ∅ [] :=
  ⟨fun _ => rfl, nofun⟩

theorem total_single (arr : Arrangement) (entry : Entry) :
    total (fun other => if other = entry then 1 else 0) arr =
      (arr.find entry.joinKey entry.rowId).elim 0
        fun row => if row.rowBytes = entry.rowBytes then row.weight else 0 := by
  have perBucket : ∀ joinKey (bucket : HashMap (BitVec 128) ArrRow),
      bucketTotal (fun other => if other = entry then 1 else 0) joinKey bucket =
        if joinKey = entry.joinKey then (bucket.lookup entry.rowId).elim 0
            fun row => if row.rowBytes = entry.rowBytes then row.weight else 0 else 0 := by
    intro joinKey bucket
    by_cases sameKey : joinKey = entry.joinKey
    · rw [if_pos sameKey, ← sumOver_single]
      apply sumOver_congr
      intro rowId row _
      by_cases sameId : rowId = entry.rowId <;> simp [Entry.ext_iff, sameKey, sameId]
    · rw [if_neg sameKey]
      apply sumOver_eq_zero
      simp [Entry.ext_iff, sameKey]
  unfold total
  simp only [perBucket]
  rw [sumOver_single]
  unfold find
  cases arr.lookup entry.joinKey <;> rfl

namespace Represents

variable {next : Arrangement}

section

variable (models : Represents arr entries)
include models

/-- The arrangement stores exactly the entries of non-zero accumulated weight. -/
theorem find_iff (entry : Entry) (weight : Int) :
    arr.find entry.joinKey entry.rowId = some ⟨entry.rowBytes, weight⟩ ↔
      weight ≠ 0 ∧ Weighted.weight entries entry = weight := by
  have single : Weighted.weight entries entry = (arr.find entry.joinKey entry.rowId).elim 0
        fun row => if row.rowBytes = entry.rowBytes then row.weight else 0 := by
    rw [← total_single, models.sums]
    rfl
  constructor
  · intro found
    rw [single, found]
    exact ⟨models.nonzero _ _ _ found, by simp⟩
  · rintro ⟨positive, sum⟩
    rw [single] at sum
    cases found : arr.find entry.joinKey entry.rowId with
    | none =>
      rw [found] at sum
      exact absurd sum.symm positive
    | some row =>
      rw [found, Option.elim_some] at sum
      split at sum
      · next sameBytes => rw [← sameBytes, ← sum]
      · exact absurd sum.symm positive

theorem mem_of_find (found : arr.find joinKey rowId = some row) :
    ∃ fed ∈ entries, fed.1 = ⟨joinKey, rowId, row.rowBytes⟩ := by
  have accumulated := (models.find_iff ⟨joinKey, rowId, row.rowBytes⟩ row.weight).mp found
  exact exists_of_weight_ne_zero (accumulated.2.trans_ne accumulated.1)

theorem mem_of_probe {row : Bytes × Int} (probed : row ∈ arr.probe joinKey) :
    ∃ fed ∈ entries, fed.1.joinKey = joinKey ∧ fed.1.rowBytes = row.1 := by
  unfold probe at probed
  split at probed
  · cases probed
  · next bucket inBucket =>
    obtain ⟨stored, mem, rfl⟩ := mem_map.mp probed
    obtain ⟨rowId, found⟩ := mem_values.mp mem
    have stores : arr.find joinKey rowId = some stored := by simp [find, inBucket, found]
    obtain ⟨fed, isFed, same⟩ := models.mem_of_find stores
    exact ⟨fed, isFed, by rw [same], by rw [same]⟩

end

private theorem bucketTotal_updated {bucket after : HashMap (BitVec 128) ArrRow}
    (updated : Updated bucket entry deltaW after)
    (sameBytes : ∀ row, bucket.lookup entry.rowId = some row → row.rowBytes = entry.rowBytes)
    (test : Entry → Int) : bucketTotal test entry.joinKey after =
      bucketTotal test entry.joinKey bucket + test entry * deltaW := by
  unfold bucketTotal
  cases updated with
  | removed row found vanished =>
    rw [sumOver_erase_eq, found, Option.elim_some, sameBytes row found,
      show deltaW = -row.weight by omega]
    ring
  | changed row found remains =>
    rw [sumOver_insert_eq, found, Option.elim_some, sameBytes row found]
    ring
  | untouched absent noop =>
    rw [noop]
    ring
  | added absent effective =>
    rw [sumOver_insert_eq, absent, Option.elim_none]
    ring

private theorem nonzero_updated {bucket after : HashMap (BitVec 128) ArrRow}
    (updated : Updated bucket entry deltaW after)
    (nonzero : ∀ rowId row, bucket.lookup rowId = some row → row.weight ≠ 0)
    (found : after.lookup rowId = some row) : row.weight ≠ 0 := by
  cases updated with
  | removed old present vanished =>
    rw [lookup_erase_eq] at found
    split at found
    · cases found
    · exact nonzero rowId row found
  | changed old present remains =>
    rw [lookup_insert_eq] at found
    split at found
    · cases found
      exact remains
    · exact nonzero rowId row found
  | untouched absent noop => exact nonzero rowId row found
  | added absent effective =>
    rw [lookup_insert_eq] at found
    split at found
    · cases found
      exact effective
    · exact nonzero rowId row found

/-- One update adds its entry, provided the slot it writes holds the same row or none. -/
theorem update (models : Represents arr entries)
    (sameBytes : ∀ row, arr.find entry.joinKey entry.rowId = some row →
      row.rowBytes = entry.rowBytes)
    (updated : arr.update stateBytes entry deltaW = .ok (next, nextBytes)) :
    Represents next (entries ++ [(entry, deltaW)]) := by
  obtain ⟨bucket, change, rebucketed⟩ := update_rebucketed updated
  constructor
  · intro test
    have slot : ∀ row, ((arr.lookup entry.joinKey).getD ∅).lookup entry.rowId = some row →
        row.rowBytes = entry.rowBytes := by
      intro row found
      exact sameBytes row (by rw [find_eq_getD]; exact found)
    rw [rebucketed.total_eq, bucketTotal_updated change slot, models.sums, integrate_append,
      integrate_cons, integrate_nil]
    ring
  · intro joinKey rowId row found
    rw [rebucketed.find_eq] at found
    split at found
    · refine nonzero_updated change (fun otherId other stored => ?_) found
      exact models.nonzero entry.joinKey otherId other (by rw [find_eq_getD]; exact stored)
    · exact models.nonzero joinKey rowId row found

theorem probe_sum (models : Represents arr entries) (joinKey : Bytes) (test : Bytes → Int) :
    integrate test (arr.probe joinKey) =
      integrate (fun other => if other.joinKey = joinKey then test other.rowBytes else 0)
        entries := by
  have perBucket : ∀ key (bucket : HashMap (BitVec 128) ArrRow),
      bucketTotal (fun other => if other.joinKey = joinKey then test other.rowBytes else 0)
        key bucket =
      if key = joinKey then bucket.sumOver fun _ row => test row.rowBytes * row.weight else 0 := by
    intro key bucket
    unfold bucketTotal
    by_cases sameKey : key = joinKey
    · simp [sameKey]
    · rw [if_neg sameKey]
      exact sumOver_eq_zero fun _ _ _ => by simp [sameKey]
  rw [← models.sums]
  unfold total probe
  simp only [perBucket]
  rw [sumOver_single]
  cases arr.lookup joinKey with
  | none => rfl
  | some bucket =>
    simp only [integrate, map_map, Option.elim_some]
    exact sum_values (fun row : ArrRow => test row.rowBytes * row.weight) bucket

end Represents

end Arrangement

/-! ## Matching two lists of entries -/

/-- A test on pairs of encoded rows, restricted to entries with one key. -/
def Entry.matching (test : Bytes → Bytes → Int) (left right : Entry) : Int :=
  if right.joinKey = left.joinKey then test left.rowBytes right.rowBytes else 0

theorem Entry.matching_swap (test : Bytes → Bytes → Int) (left right : Entry) :
    Entry.matching (fun own other => test other own) right left =
      Entry.matching test left right := by
  simp only [Entry.matching, eq_comm]

section Matching

variable {α : Type} (shape : Bytes → Bytes → α) (test : α → Int)

theorem Arrangement.Represents.integrate_probes
    (models : arr.Represents entries) (delta : List (Entry × Int)) :
    integrate test (delta.flatMap fun row => (arr.probe row.1.joinKey).map fun other =>
          (shape row.1.rowBytes other.1, row.2 * other.2)) =
      pairing (Entry.matching fun own other => test (shape own other)) delta entries := by
  rw [integrate_flatMap]
  refine congrArg sum (map_congr_left fun row _ => ?_)
  rw [integrate_map_scaled, models.probe_sum]
  rfl

theorem integrate_matches (left right : List (Entry × Int)) :
    integrate test (left.flatMap fun row =>
        (right.filter fun other => other.1.joinKey = row.1.joinKey).map fun other =>
          (shape row.1.rowBytes other.1.rowBytes, row.2 * other.2)) =
      pairing (Entry.matching fun own other => test (shape own other)) left right := by
  rw [integrate_flatMap]
  refine congrArg sum (map_congr_left fun row _ => ?_)
  rw [integrate_map_scaled (fun other : Entry => shape row.1.rowBytes other.rowBytes),
    integrate_filter (fun other : Entry => decide (other.joinKey = row.1.joinKey))]
  simp only [decide_eq_true_eq]
  rfl

/-- The three parts an epoch of a join emits: each delta against the other side's arrangement, and
the two deltas against each other. -/
def joinDeltas (leftArr rightArr : Arrangement) (left right : List (Entry × Int)) :
    List (α × Int) :=
  (left.flatMap fun row => (rightArr.probe row.1.joinKey).map fun other =>
      (shape row.1.rowBytes other.1, row.2 * other.2)) ++
    (right.flatMap fun row => (leftArr.probe row.1.joinKey).map fun other =>
      (shape other.1 row.1.rowBytes, row.2 * other.2)) ++
    (left.flatMap fun row =>
      (right.filter fun other => other.1.joinKey = row.1.joinKey).map fun other =>
        (shape row.1.rowBytes other.1.rowBytes, row.2 * other.2))

theorem exists_of_mem_joinDeltas {left right : List (Entry × Int)}
    {LeftRow RightRow : Bytes → Prop} (leftRows : ∀ row ∈ left, LeftRow row.1.rowBytes)
    (rightRows : ∀ row ∈ right, RightRow row.1.rowBytes)
    (leftProbed : ∀ joinKey, ∀ row ∈ leftArr.probe joinKey, LeftRow row.1)
    (rightProbed : ∀ joinKey, ∀ row ∈ rightArr.probe joinKey, RightRow row.1) {row : α × Int}
    (mem : row ∈ joinDeltas shape leftArr rightArr left right) :
    ∃ own other, LeftRow own ∧ RightRow other ∧ row.1 = shape own other := by
  simp only [joinDeltas, mem_append, mem_flatMap, mem_map] at mem
  rcases mem with (⟨own, staged, other, probed, rfl⟩ | ⟨other, staged, own, probed, rfl⟩) |
    ⟨own, staged, other, filtered, rfl⟩
  · exact ⟨_, _, leftRows own staged, rightProbed _ other probed, rfl⟩
  · exact ⟨_, _, leftProbed _ own probed, rightRows other staged, rfl⟩
  · exact ⟨_, _, leftRows own staged, rightRows other (mem_of_mem_filter filtered), rfl⟩

/-- The three parts are the change of the pairing of the two sides. -/
theorem integrate_joinDeltas {leftEntries rightEntries : List (Entry × Int)}
    (leftRepresents : leftArr.Represents leftEntries)
    (rightRepresents : rightArr.Represents rightEntries) (left right : List (Entry × Int)) :
    pairing (Entry.matching fun own other => test (shape own other)) (leftEntries ++ left)
        (rightEntries ++ right) =
      pairing (Entry.matching fun own other => test (shape own other)) leftEntries rightEntries +
        integrate test (joinDeltas shape leftArr rightArr left right) := by
  have fromRight : integrate test (right.flatMap fun row =>
      (leftArr.probe row.1.joinKey).map fun other =>
        (shape other.1 row.1.rowBytes, row.2 * other.2)) =
      pairing (Entry.matching fun own other => test (shape own other)) leftEntries right := by
    rw [leftRepresents.integrate_probes (fun own other => shape other own), pairing_comm]
    simp only [Entry.matching_swap (fun left right => test (shape left right))]
  rw [pairing_append_append, joinDeltas, integrate_append, integrate_append, fromRight,
    rightRepresents.integrate_probes shape, integrate_matches shape]

end Matching

/-! ## Draining a staged delta -/

abbrev HashSet (κ : Type) := HashMap κ Unit

/-- One side of a join state during a commit, with the bytes counter it shares. -/
structure Arranged where
  arr : Arrangement
  stateBytes : Nat
  dirty : HashSet (Bytes × BitVec 128)

/-- The loop body of a commit: mark the row dirty and update the arrangement. -/
def Arranged.apply (side : Arranged) (staged : Entry × Int) : Exec Arranged := do
  let (arr, stateBytes) ← side.arr.update side.stateBytes staged.1 staged.2
  pure ⟨arr, stateBytes, side.dirty.insert (staged.1.joinKey, staged.1.rowId) ()⟩

/-- `rows.drain(..)` into the arrangement. -/
def Arranged.drain (side : Arranged) (rows : List (Entry × Int)) : Exec Arranged :=
  rows.foldlM Arranged.apply side

/-- No two different rows among those involved share key and id. -/
def CollisionFree (Involved : Entry → Prop) : Prop :=
  ∀ left right, Involved left → Involved right →
    left.joinKey = right.joinKey → left.rowId = right.rowId → left.rowBytes = right.rowBytes

/-- No two different rows of a list of entries share key and id. -/
def EntriesDistinct (entries : List (Entry × Int)) : Prop :=
  CollisionFree fun entry => ∃ row ∈ entries, row.1 = entry

instance (entries : List (Entry × Int)) : Decidable (EntriesDistinct entries) :=
  decidable_of_iff
    (∀ left ∈ entries, ∀ right ∈ entries,
      left.1.joinKey = right.1.joinKey → left.1.rowId = right.1.rowId →
        left.1.rowBytes = right.1.rowBytes)
    ⟨fun distinct _ _ ⟨_, leftMember, leftSame⟩ ⟨_, rightMember, rightSame⟩ =>
        leftSame ▸ rightSame ▸ distinct _ leftMember _ rightMember,
      fun distinct left leftMember right rightMember =>
        distinct left.1 right.1 ⟨left, leftMember, rfl⟩ ⟨right, rightMember, rfl⟩⟩

theorem EntriesDistinct.of_subset {more : List (Entry × Int)} (distinct : EntriesDistinct more)
    (subset : entries ⊆ more) : EntriesDistinct entries := by
  rintro left right ⟨leftRow, leftMember, leftSame⟩ ⟨rightRow, rightMember, rightSame⟩
  exact distinct left right ⟨leftRow, subset leftMember, leftSame⟩
    ⟨rightRow, subset rightMember, rightSame⟩

namespace Arranged

theorem represents_apply (free : CollisionFree Involved)
    {side next : Arranged} {staged : Entry × Int} (models : side.arr.Represents entries)
    (involved : ∀ row ∈ entries, Involved row.1) (stagedInvolved : Involved staged.1)
    (applied : side.apply staged = .ok next) : next.arr.Represents (entries ++ [staged]) := by
  obtain ⟨⟨arr, stateBytes⟩, updated, done⟩ := bind_eq_ok.mp applied
  cases done
  refine models.update ?_ updated
  intro row found
  obtain ⟨other, mem, same⟩ := models.mem_of_find found
  have otherInvolved := involved other mem
  rw [same] at otherInvolved
  exact free _ _ otherInvolved stagedInvolved rfl rfl

theorem represents_drain (free : CollisionFree Involved)
    {side final : Arranged} (models : side.arr.Represents entries)
    (involved : ∀ row ∈ entries, Involved row.1) (rowsInvolved : ∀ row ∈ rows, Involved row.1)
    (drained : side.drain rows = .ok final) : final.arr.Represents (entries ++ rows) := by
  refine foldlM_invariant
    (fun done current => (∀ row ∈ done, Involved row.1) → current.arr.Represents (entries ++ done))
    ?_ (fun _ => by simpa using models) drained rowsInvolved
  intro done current item next held applied stillInvolved
  rw [← append_assoc]
  refine represents_apply free (held fun row mem => stillInvolved row (by simp [mem])) ?_
    (stillInvolved item (by simp)) applied
  intro row mem
  rcases mem_append.mp mem with old | new
  · exact involved row old
  · exact stillInvolved row (by simp [new])

theorem drain_yields (side : Arranged)
    (models : side.arr.Represents entries) (distinct : EntriesDistinct (entries ++ rows)) :
    Yields (side.drain rows) fun final => final.arr.Represents (entries ++ rows) := by
  cases drained : side.drain rows with
  | ok final =>
    exact Meets.ok (represents_drain distinct models
      (fun row mem => ⟨row, by simp [mem], rfl⟩)
      (fun row mem => ⟨row, by simp [mem], rfl⟩) drained)
  | error fault =>
    refine foldlM_error (· = .overflow) ?_ drained
    intro current staged failure stopped
    rcases bind_eq_error.mp stopped with updating | ⟨_, _, impossible⟩
    · exact Arrangement.update_error updating
    · cases impossible

end Arranged

end RockStream
