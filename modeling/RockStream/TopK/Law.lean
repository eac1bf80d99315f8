import RockStream.TopK.Stage
import RockStream.Distinct.Dual

/-!
Contract: Top-K batch equivalence over runs.

Owns:
- `Accepted`, what the published state of a partition represents;
- `StagedInvariant`, the row loop over staged partitions, and the refresh of the dirty
  ones;
- `processEpoch_firstRows`, that the emitted rows sum to the first `k` rows of every
  partition, with or without a spill store, and the limit of `k` that this needs.

Does not own: rows with a NULL, whose raw slots the operator reads.
-/

namespace RockStream

open Lib Lib.Weighted Lib.Multiplicity List HashMap

namespace TopKOp

/-! ## Published partitions -/

/-- The published state of a partition represents its rows, and shows the first of them. -/
structure Accepted (op : TopKOp) (rows : RawRows) (db : Option Store) (slot : UInt8)
    (partKey : Bytes) (part : PartitionState) : Prop where
  represents : ∃ spills, op.Live rows partKey ⟨part, spills, []⟩ ∧
    op.Stored db slot partKey ⟨part, spills, []⟩
  selects : op.Selects rows partKey part.emitted
  shows : ∀ vals, op.partitionOf vals = partKey →
    shownCount part.emitted vals = op.topkWeight rows vals

/-- The partition as published, or new. -/
def TopKState.partition (state : TopKState) (partKey : Bytes) : PartitionState :=
  (state.partitions.lookup partKey).getD .new

def StateInvariant (op : TopKOp) (rows : RawRows) (state : TopKState) : Prop :=
  ∀ partKey, partKey.length = op.keyLength →
    op.Accepted rows state.db state.spillSlot partKey (TopKState.partition state partKey)

theorem accepted_new (op : TopKOp) (db : Option Store) (slot : UInt8) (partKey : Bytes) :
    op.Accepted [] db slot partKey .new := by
  refine ⟨⟨∅, ⟨⟨fun id => ?_, fun id entry found => ?_⟩, fun id entry found => ?_,
    fun vals _ present => absurd rfl present⟩, fun id entry found => ?_⟩,
    op.selects_empty [] partKey, fun vals _ => ?_⟩
  · simp [PartitionState.new]
  · cases found
  · cases found
  · cases found
  · rw [topkWeight_eq_zero (le_refl 0)]
    rfl

/-! ## The row loop -/

/-- What holds inside the row loop: staged partitions represent the rows so far, and the rows and
records of the other partitions are as published. -/
structure StagedInvariant (op : TopKOp) (base : RawRows) (state : TopKState) (rows : RawRows)
    (staged : Staged) : Prop where
  touched : ∀ partKey part, staged.partitions.lookup partKey = some part →
    partKey.length = op.keyLength ∧ part.emitted = (TopKState.partition state partKey).emitted ∧
      ∃ spills, staged.spills.lookup partKey = some spills ∧
        op.Live rows partKey ⟨part, spills, staged.writes⟩ ∧
        op.Stored state.db state.spillSlot partKey ⟨part, spills, staged.writes⟩
  untouched : ∀ partKey, staged.partitions.lookup partKey = none →
    (∀ vals, op.partitionOf vals = partKey → weight rows vals = weight base vals) ∧
      (partKey.length = op.keyLength → ∀ (store : Store) id,
        (store.writeBatch staged.writes).lookup (op.spillKey state.spillSlot partKey id) =
          store.lookup (op.spillKey state.spillSlot partKey id))
  dirty : ∀ partKey, partKey ∈ staged.dirty ↔ (staged.partitions.lookup partKey).isSome = true
  nodup : staged.dirty.Nodup

theorem stagedInvariant_new (op : TopKOp) (base : RawRows) (state : TopKState) :
    op.StagedInvariant base state base .new where
  touched := nofun
  untouched := fun partKey _ => ⟨fun vals _ => rfl, fun _ store id => rfl⟩
  dirty := fun partKey => by simp [Staged.new]
  nodup := nodup_nil

variable {op : TopKOp} {base rows : RawRows} {state : TopKState} {staged : Staged} {env : SpillEnv}

section Rows

variable (inv : op.StagedInvariant base state rows staged)
include inv

theorem StagedInvariant.congr
    {other : RawRows} (agree : ∀ vals, weight other vals = weight rows vals) :
    op.StagedInvariant base state other staged where
  touched := fun partKey part found => by
    obtain ⟨length, emitted, spills, isSpills, live, stored⟩ := inv.touched partKey part found
    exact ⟨length, emitted, spills, isSpills,
      live.congr (fun vals _ => agree vals) rfl fun _ => rfl,
      stored⟩
  untouched := fun partKey absent => by
    obtain ⟨weights, records⟩ := inv.untouched partKey absent
    exact ⟨fun vals inPart => (agree vals).trans (weights vals inPart), records⟩
  dirty := inv.dirty
  nodup := inv.nodup

/-- A partition comes into the epoch as it represents the rows so far. -/
theorem StagedInvariant.stagePartition_spec
    (accepted : op.StateInvariant base state) {partKey : Bytes}
    (length : partKey.length = op.keyLength) :
    Meets (fun _ => True) (op.stagePartition env state staged partKey) fun part =>
      op.Live rows partKey part ∧ op.Stored state.db state.spillSlot partKey part ∧
        part.part.emitted = (TopKState.partition state partKey).emitted ∧
        part.writes = staged.writes := by
  unfold stagePartition
  cases found : staged.partitions.lookup partKey with
  | some part =>
    obtain ⟨_, emitted, spills, isSpills, live, stored⟩ := inv.touched partKey part found
    rw [isSpills]
    exact Meets.ok ⟨live, stored, emitted, rfl⟩
  | none =>
    obtain ⟨⟨spills, live, stored⟩, _, _⟩ := accepted partKey length
    obtain ⟨weights, records⟩ := inv.untouched partKey found
    refine (readSpilled_spec rfl live stored).bind fun entries sameEntries => ?_
    refine Meets.pure ⟨live.congr weights rfl sameEntries,
      stored.congr sameEntries fun store id => ?_, rfl, rfl⟩
    exact records length store id

theorem StagedInvariant.processRow_spec
    (accepted : op.StateInvariant base state) {row : List Cell × Int}
    (width : row.1.length = op.nInputCols) (fits : InI64 row.2)
    (apart : KeysDistinguish rowIdHash (rows ++ [(extractRowVals row.1, row.2)])) :
    Meets (fun _ => True) (op.processRow env state staged row)
      (op.StagedInvariant base state (rows ++ [(extractRowVals row.1, row.2)])) := by
  unfold processRow
  split
  · next zero =>
    exact Meets.ok (inv.congr fun vals => by simp [zero])
  next nonZero =>
  dsimp only
  rw [take_of_length_le width.le]
  have valsWidth : (extractRowVals row.1).length = op.nInputCols := by
    rw [extractRowVals, length_map, width]
  generalize extractRowVals row.1 = vals at apart valsWidth
  have length := op.length_partitionOf vals
  rw [op.column_eq valsWidth, op.partitionKeyBytes_eq valsWidth]
  refine (inv.stagePartition_spec accepted length).bind ?_
  rintro part ⟨live, stored, emitted, writes⟩
  refine (applyRow_effect live.wellFormed nonZero fits).bind ?_
  rintro next ⟨newFits, changed⟩
  -- Rows and records of another partition do not change.
  have otherWeights : ∀ partKey, partKey ≠ op.partitionOf vals → ∀ other,
      op.partitionOf other = partKey → weight (rows ++ [(vals, row.2)]) other =
        weight rows other := by
    intro partKey ne other inPart
    have notVals : ¬ vals = other := by
      rintro rfl
      exact ne inPart.symm
    simp [notVals]
  have otherRecords : ∀ partKey : Bytes, partKey.length = op.keyLength →
      partKey ≠ op.partitionOf vals → ∀ (store : Store) id,
      (store.writeBatch next.writes).lookup (op.spillKey state.spillSlot partKey id) =
        (store.writeBatch staged.writes).lookup (op.spillKey state.spillSlot partKey id) := by
    intro partKey otherLength ne store id
    rw [← writes]
    refine changed.otherRecords store _ fun same => ne ?_
    exact (spillKey_inj (otherLength.trans length.symm) same).1
  refine Meets.pure ⟨fun partKey found isFound => ?_, fun partKey absent => ?_, fun partKey => ?_,
    inv.nodup.insert⟩
  · rw [lookup_insert_eq] at isFound
    split at isFound
    · next same =>
      obtain rfl := Option.some.inj isFound
      subst same
      refine ⟨length, changed.emitted.trans emitted, next.spills, ?_, ?_, stored.effect changed⟩
      · rw [lookup_insert_eq, if_pos rfl]
      · exact live.effect apart rfl valsWidth newFits changed
    · next ne =>
      obtain ⟨otherLength, otherEmitted, spills, isSpills, otherLive, otherStored⟩ :=
        inv.touched partKey found isFound
      refine ⟨otherLength, otherEmitted, spills, ?_, ?_, ?_⟩
      · rw [lookup_insert_eq, if_neg ne, isSpills]
      · exact otherLive.congr (otherWeights partKey ne) rfl fun _ => rfl
      · exact otherStored.congr (fun _ => rfl) fun store id =>
          otherRecords partKey otherLength ne store id
  · rw [lookup_insert_eq] at absent
    split at absent
    · cases absent
    · next ne =>
      obtain ⟨weights, records⟩ := inv.untouched partKey absent
      refine ⟨fun other inPart => ?_, fun otherLength store id => ?_⟩
      · rw [otherWeights partKey ne other inPart, weights other inPart]
      · rw [otherRecords partKey otherLength ne store id, records otherLength store id]
  · rw [mem_insert_iff, lookup_insert_eq, inv.dirty]
    by_cases same : partKey = op.partitionOf vals <;> simp [same]

end Rows

/-! ## Refreshing and publishing -/

def newTopk (op : TopKOp) (staged : Staged) (partKey : Bytes) (part : PartitionState) :
    HashMap RowId (List Int64 × Int) :=
  selectTopk part op.k ((staged.spills.lookup partKey).getD ∅)

theorem foldl_refresh (op : TopKOp) (staged : Staged) {dirty : List Bytes} (nodup : dirty.Nodup)
    (out : List (List Int64 × Int)) (parts : HashMap Bytes PartitionState) :
    (dirty.foldl (op.refresh staged) (out, parts)).1 = out ++ dirty.flatMap (fun partKey =>
        (parts.lookup partKey).elim [] fun part =>
          emissions part.emitted (op.newTopk staged partKey part)) ∧
      ∀ partKey, (dirty.foldl (op.refresh staged) (out, parts)).2.lookup partKey =
        if partKey ∈ dirty then (parts.lookup partKey).map fun part =>
          { part with emitted := op.newTopk staged partKey part }
        else parts.lookup partKey := by
  have refreshed : ∀ out parts partKey, (op.refresh staged (out, parts) partKey).1 = out ++
        ((parts.lookup partKey).elim [] fun part =>
          emissions part.emitted (op.newTopk staged partKey part)) ∧
      ∀ other, (op.refresh staged (out, parts) partKey).2.lookup other =
        if other = partKey then (parts.lookup partKey).map fun part =>
          { part with emitted := op.newTopk staged partKey part }
        else parts.lookup other := by
    intro out parts partKey
    unfold refresh newTopk
    cases found : parts.lookup partKey with
    | none => exact ⟨(append_nil out).symm, lookup_of_absent found⟩
    | some part => exact ⟨rfl, fun other => lookup_insert_eq _ _ _ _⟩
  induction dirty generalizing out parts with
  | nil => simp
  | cons head tail ih =>
    rw [nodup_cons] at nodup
    obtain ⟨headEmits, headLookups⟩ := refreshed out parts head
    obtain ⟨emitted, lookups⟩ := ih nodup.2 (op.refresh staged (out, parts) head).1
      (op.refresh staged (out, parts) head).2
    rw [foldl_cons]
    refine ⟨?_, fun partKey => ?_⟩
    · rw [emitted, headEmits, flatMap_cons, append_assoc]
      congr 2
      refine flatMap_congr fun partKey mem => ?_
      rw [headLookups, if_neg (ne_of_mem_of_not_mem mem nodup.1)]
    · rw [lookups, headLookups]
      by_cases same : partKey = head
      · subst same
        simp [nodup.1]
      · simp [same]

theorem lookup_publish (accepted staged : HashMap Bytes PartitionState) (partKey : Bytes) :
    (publish accepted staged).lookup partKey =
      (staged.lookup partKey).or (accepted.lookup partKey) := by
  have folded := lookup_foldl
    (fun map (entry : Bytes × PartitionState) => map.insert entry.1 entry.2) Prod.fst
    (fun entry _ => some entry.2)
    (fun map entry query => lookup_insert_eq map entry.1 query entry.2)
    (nodup_keys staged) accepted
  cases found : staged.lookup partKey with
  | some part => exact folded.1 (partKey, part) (mem_toPairs.mpr found)
  | none =>
    refine folded.2 partKey fun inside => ?_
    obtain ⟨⟨_, part⟩, mem, rfl⟩ := mem_map.mp inside
    rw [mem_toPairs.mp mem] at found
    cases found

theorem partition_publish (state : TopKState) (staged : HashMap Bytes PartitionState)
    (db : Option Store) (partKey : Bytes) :
    TopKState.partition { state with partitions := publish state.partitions staged, db } partKey =
      (staged.lookup partKey).getD (TopKState.partition state partKey) := by
  unfold TopKState.partition
  rw [lookup_publish]
  cases staged.lookup partKey <;> rfl

/-! ## Epochs -/

section Epoch

/-- A dirty partition: its lists, its new selection, and what it emits. -/
theorem StagedInvariant.lists (inv : op.StagedInvariant base state rows staged)
    (apart : KeysDistinguish rowIdHash rows) {partKey : Bytes} {part : PartitionState}
    (found : staged.partitions.lookup partKey = some part) :
    op.Lists rows partKey (part.buffer.toPairs ++
      ((staged.spills.lookup partKey).getD ∅).toPairs) := by
  obtain ⟨_, _, spills, isSpills, live, _⟩ := inv.touched partKey part found
  rw [isSpills]
  exact live.lists apart

variable (inv : op.StagedInvariant base state rows staged)
  (accepted : op.StateInvariant base state) (bounded : op.k < 2 ^ 63) {more : RawRows}
  (grown : rows = base ++ more) (apart : KeysDistinguish rowIdHash rows)
include inv accepted bounded more grown apart

/-- The emitted rows of an epoch are the change of the first rows of all partitions. -/
theorem StagedInvariant.weight_refreshed (vals : List Int64) :
    weight (staged.dirty.foldl (op.refresh staged) ([], staged.partitions)).1 vals =
      op.topkWeight rows vals - op.topkWeight base vals := by
  have oldSelects : ∀ partKey part, staged.partitions.lookup partKey = some part →
      op.Selects rows partKey part.emitted := by
    intro partKey part found
    obtain ⟨length, emitted, _⟩ := inv.touched partKey part found
    rw [emitted, grown]
    exact (accepted partKey length).selects.append more
  have newSelects : ∀ partKey part, staged.partitions.lookup partKey = some part →
      op.Selects rows partKey (op.newTopk staged partKey part) :=
    fun partKey part found => (inv.lists apart found).selects bounded
  -- Only the partition of the row contributes.
  have single : ∀ partKey ∈ staged.dirty, partKey ≠ op.partitionOf vals →
      weight ((staged.partitions.lookup partKey).elim [] fun part =>
        emissions part.emitted (op.newTopk staged partKey part)) vals = 0 := by
    intro partKey _ ne
    cases found : staged.partitions.lookup partKey with
    | none => rfl
    | some part =>
      exact weight_emissions_eq_zero (oldSelects partKey part found)
        (newSelects partKey part found) (Ne.symm ne)
  rw [(foldl_refresh op staged inv.nodup [] staged.partitions).1, nil_append]
  cases found : staged.partitions.lookup (op.partitionOf vals) with
  | none =>
    have notDirty : op.partitionOf vals ∉ staged.dirty := by
      rw [inv.dirty, found]
      simp
    rw [weight_flatMap_eq_zero fun partKey isDirty => single partKey isDirty fun same =>
      notDirty (same ▸ isDirty), topkWeight_congr (inv.untouched _ found).1, sub_self]
  | some part =>
    have isDirty : op.partitionOf vals ∈ staged.dirty := by
      rw [inv.dirty, found]
      rfl
    obtain ⟨length, emitted, _⟩ := inv.touched _ part found
    have own : weight (emissions part.emitted (op.newTopk staged (op.partitionOf vals) part)) vals =
        op.topkWeight rows vals - op.topkWeight base vals := by
      rw [weight_emissions (oldSelects _ part found) (newSelects _ part found) apart,
        newTopk, (inv.lists apart found).shownCount_selectTopk bounded rfl, emitted,
        (accepted _ length).shows vals rfl]
    rw [weight_flatMap_single inv.nodup isDirty single, found]
    exact own

theorem StagedInvariant.refreshed_occurs :
    ∀ row ∈ (staged.dirty.foldl (op.refresh staged) ([], staged.partitions)).1,
      ∃ source ∈ rows, source.1 = row.1 := by
  intro row mem
  rw [(foldl_refresh op staged inv.nodup [] staged.partitions).1, nil_append] at mem
  obtain ⟨partKey, _, inPart⟩ := mem_flatMap.mp mem
  cases found : staged.partitions.lookup partKey with
  | none =>
    rw [found] at inPart
    cases inPart
  | some part =>
    rw [found] at inPart
    obtain ⟨length, emitted, _⟩ := inv.touched partKey part found
    rcases mem_append.mp inPart with retracted | inserted
    · obtain ⟨⟨id, shown⟩, isEntry, rfl⟩ := mem_map.mp retracted
      have isShown := mem_toPairs.mp (mem_of_mem_filter isEntry)
      rw [emitted] at isShown
      obtain ⟨source, isSource, same⟩ := (accepted partKey length).selects.occurs id shown isShown
      exact ⟨source, by simp [grown, isSource], same⟩
    · obtain ⟨⟨id, shown⟩, isEntry, rfl⟩ := mem_map.mp inserted
      exact ((inv.lists apart found).selects bounded).occurs id shown
        (mem_toPairs.mp (mem_of_mem_filter isEntry))

theorem StagedInvariant.publish_spec {db : Option Store}
    (written : db = state.db.map fun store => store.writeBatch staged.writes) :
    op.StateInvariant rows { state with
      partitions := publish state.partitions
        (staged.dirty.foldl (op.refresh staged) ([], staged.partitions)).2
      db := db } := by
  intro partKey length
  have refreshed := (foldl_refresh op staged inv.nodup [] staged.partitions).2 partKey
  cases found : staged.partitions.lookup partKey with
  | none =>
    have notDirty : partKey ∉ staged.dirty := by
      rw [inv.dirty, found]
      simp
    rw [if_neg notDirty, found] at refreshed
    rw [partition_publish, refreshed, Option.getD_none]
    obtain ⟨⟨spills, live, stored⟩, selects, shows⟩ := accepted partKey length
    obtain ⟨weights, records⟩ := inv.untouched partKey found
    refine ⟨⟨spills, live.congr weights rfl fun _ => rfl, fun id entry isEntry => ?_⟩,
      grown ▸ selects.append more, fun vals inPart => ?_⟩
    · obtain ⟨store, isStore, record⟩ := stored id entry isEntry
      refine ⟨store.writeBatch staged.writes, by rw [written, isStore]; rfl, ?_⟩
      exact (records length store id).trans record
    · rw [shows vals inPart]
      exact (topkWeight_congr fun row rowPart => weights row (rowPart.trans inPart)).symm
  | some part =>
    have isDirty : partKey ∈ staged.dirty := by
      rw [inv.dirty, found]
      rfl
    rw [if_pos isDirty, found] at refreshed
    rw [partition_publish, refreshed]
    have lists := inv.lists apart found
    obtain ⟨_, _, spills, isSpills, live, stored⟩ := inv.touched partKey part found
    refine ⟨⟨spills, ?_, fun id entry isEntry => ?_⟩, lists.selects bounded, fun vals inPart => ?_⟩
    · exact ⟨⟨live.wellFormed.spilled, live.wellFormed.disjoint⟩, live.entries, live.complete⟩
    · obtain ⟨store, isStore, record⟩ := stored id entry isEntry
      exact ⟨store.writeBatch staged.writes, by rw [written, isStore]; rfl, record⟩
    · exact lists.shownCount_selectTopk bounded inPart

end Epoch

section Runs

variable {width : Nat} {delta : ArrowZSet}

theorem processRows_spec (shape : Int64Shape op.schema width) (input : Int64Epoch width delta)
    (accepted : op.StateInvariant base state) (env : SpillEnv)
    (apart : KeysDistinguish rowIdHash (base ++ int64Rows delta.valued)) :
    Meets (fun _ => True) (delta.rows.foldlM (op.processRow env state) .new)
      (op.StagedInvariant base state (base ++ int64Rows delta.valued)) := by
  rw [input.int64Rows_eq] at apart ⊢
  refine Meets.foldlM (fun done => op.StagedInvariant base state
    (base ++ done.map fun row : List Cell × Int => (extractRowVals row.1, row.2))) ?_ ?_
  · rw [map_nil, append_nil]
    exact op.stagedInvariant_new base state
  · intro done row rest staged split inv
    have mem : row ∈ delta.rows := by simp [split]
    have width : row.1.length = op.nInputCols := (input.length_eq mem).trans shape.length.symm
    rw [map_append, ← append_assoc]
    refine inv.processRow_spec accepted width (input.weights row mem)
      (apart.of_subset fun other inside => ⟨other, ?_, rfl⟩)
    rw [split, append_cons, map_append, ← append_assoc]
    refine mem_append_left _ ?_
    rw [map_append, ← append_assoc]
    exact inside

/-- A successful epoch emits the change of the first rows of every partition. -/
theorem runEpoch_spec (bounded : op.k < 2 ^ 63) (shape : Int64Shape op.schema width)
    (columns : 0 < width) (input : Int64Epoch width delta) (accepted : op.StateInvariant base state)
    (env : SpillEnv) (apart : KeysDistinguish rowIdHash (base ++ int64Rows delta.valued))
    (wide : HaveWidth width (base ++ int64Rows delta.valued)) :
    Meets (fun _ => True) (op.runEpoch env state delta) fun result =>
      op.StateInvariant (base ++ int64Rows delta.valued) result.2 ∧
        Shows result.1.valued (op.topkWeight base)
          (op.topkWeight (base ++ int64Rows delta.valued)) := by
  refine (processRows_spec shape input accepted env apart).bind fun staged inv => ?_
  have occurs := inv.refreshed_occurs accepted bounded rfl apart
  have outWide : HaveWidth width
      (staged.dirty.foldl (op.refresh staged) ([], staged.partitions)).1 := by
    intro row mem
    obtain ⟨source, isSource, same⟩ := occurs row mem
    rw [← same]
    exact wide source isSource
  refine Meets.bind ((buildValues_spec shape columns (apart.of_subset occurs) outWide).permit
    fun _ _ => trivial) fun output showsValues => ?_
  have written : Meets (fun _ => True) (writeSpills env state.db staged.writes)
      (· = state.db.map fun store => store.writeBatch staged.writes) := by
    unfold writeSpills
    split
    · next noWrites =>
      rw [isEmpty_iff.mp noWrites]
      cases state.db <;> rfl
    · cases state.db with
      | none => trivial
      | some store =>
        dsimp only
        split
        · trivial
        · rfl
  refine written.bind fun db isWritten => Meets.pure ⟨?_, ?_⟩
  · exact inv.publish_spec accepted bounded rfl apart isWritten
  · exact showsValues.shows
      (inv.weight_refreshed accepted bounded rfl apart)

/-- What holds after every successful run. -/
structure RunInvariant (op : TopKOp) (epochs : List (ArrowZSet × SpillEnv))
    (outputs : List ArrowZSet) (state : TopKState) : Prop where
  accepted : op.StateInvariant (inputRows epochs) state
  shows : Shows (outputs.flatMap ArrowZSet.valued) (fun _ => 0) (op.topkWeight (inputRows epochs))

theorem runInvariant_run (bounded : op.k < 2 ^ 63) (shape : Int64Shape op.schema width)
    (columns : 0 < width) (db : Option Store) {epochs : List (ArrowZSet × SpillEnv)}
    (inputs : ∀ epoch ∈ epochs, Int64Epoch width epoch.1)
    (apart : KeysDistinguish rowIdHash (inputRows epochs)) :
    Meets (fun _ => True) (Loop.run op.processEpoch (initial db) epochs)
      fun result => op.RunInvariant epochs result.1 result.2 := by
  refine Meets.run op.RunInvariant ⟨fun partKey _ => op.accepted_new db 0 partKey, ?_⟩ ?_
  · refine ⟨fun vals => ?_, fun row _ => rfl⟩
    rw [topkWeight_eq_zero (show weight (inputRows []) vals ≤ 0 from le_refl 0)]
    rfl
  · intro done epoch rest emitted state split inv
    have mem : epoch ∈ epochs := by simp [split]
    have grows := inputRows_append_single done epoch
    have initialPart : KeysDistinguish rowIdHash (inputRows (done ++ [epoch])) := by
      rw [split, append_cons] at apart
      exact apart.inputRows_prefix
    have wide : HaveWidth width (inputRows (done ++ [epoch])) := by
      refine haveWidth_inputRows fun other inside => inputs other ?_
      rw [split, append_cons]
      exact mem_append_left _ inside
    have whole : Meets (fun _ => True) (op.processEpoch state epoch) fun result =>
        op.StateInvariant (inputRows (done ++ [epoch])) result.2 ∧
          Shows result.1.valued (op.topkWeight (inputRows done))
            (op.topkWeight (inputRows (done ++ [epoch]))) := by
      refine Exec.meets_within_any ?_ state
      split
      · next noRows =>
        have hollow : inputRows (done ++ [epoch]) = inputRows done := by
          rw [grows, ArrowZSet.valued, isEmpty_iff.mp noRows]
          exact append_nil _
        rw [hollow, ArrowZSet.empty]
        split
        · trivial
        · refine Meets.ok ⟨inv.accepted, fun vals => ?_, fun row _ => rfl⟩
          rw [sub_self]
          rfl
      · split
        · trivial
        · have epochSpec := runEpoch_spec bounded shape columns (inputs epoch mem)
            inv.accepted epoch.2 (grows ▸ initialPart) (grows ▸ wide)
          rw [← grows] at epochSpec
          exact epochSpec
    refine whole.weaken ?_
    rintro result ⟨accepted, shows⟩
    refine ⟨accepted, ?_⟩
    rw [flatMap_append, flatMap_singleton]
    exact inv.shows.append shows

end Runs

/-- Top-K batch equivalence: over Int64 rows without NULL whose row ids do not collide, and for a
`k` that an `i64` holds, the rows emitted by any successful run sum to the first `k` rows of each
partition, counted with multiplicity. Debts, retractions and spilled rows are included, whatever the
spill store holds at the start. -/
theorem processEpoch_firstRows (op : TopKOp) (bounded : op.k < 2 ^ 63) (width : Nat)
    (shape : Int64Shape op.schema width) (columns : 0 < width) (db : Option Store)
    (epochs : List (ArrowZSet × SpillEnv)) (inputs : ∀ epoch ∈ epochs, Int64Epoch width epoch.1)
    (distinguish : KeysDistinguish rowIdHash (inputRows epochs)) (outputs : List ArrowZSet)
    (final : TopKState) (ran : Loop.run op.processEpoch (initial db) epochs = .ok (outputs, final))
    (row : Row) : weight (outputs.flatMap ArrowZSet.valued) row =
      (int64Values row).elim 0 (op.topkWeight (inputRows epochs)) := by
  have invariant := (runInvariant_run bounded shape columns db inputs distinguish).post ran
  cases found : int64Values row with
  | some vals =>
    rw [eq_valuesRow_of_int64Values found, invariant.shows.1, sub_zero]
    rfl
  | none =>
    refine invariant.shows.2 row fun vals isValues => ?_
    rw [isValues, int64Values_valuesRow] at found
    cases found

/-! ## Runs -/

def sampleOp (k : Nat) : TopKOp := ⟨(ArrowZSet.ofPairs []).fields, k, 0, [], 0⟩

/-- The storage never fails. -/
def calm : SpillEnv := ⟨fun _ => none, none⟩

/-- A row enters with a debt that is repaid later, and a row of weight two is cut at the
boundary. -/
def sampleEpochs : List (ArrowZSet × SpillEnv) :=
  [(.ofPairs [((some 5, some 1), -1), ((some 4, some 1), 2), ((some 3, some 1), 1)], calm),
    (.ofPairs [((some 5, some 1), 2)], calm)]

theorem processEpoch_firstRows_sample : ∃ outputs final,
    Loop.run (sampleOp 2).processEpoch (initial none) sampleEpochs = .ok (outputs, final) ∧
      ∀ row, weight (outputs.flatMap ArrowZSet.valued) row =
        (int64Values row).elim 0 ((sampleOp 2).topkWeight (inputRows sampleEpochs)) := by
  exact Loop.exists_ok_of_isSome (by decide +kernel)
    (processEpoch_firstRows (sampleOp 2) (by decide)
    2 ⟨rfl, by decide⟩ (by decide) none sampleEpochs (by decide) (by decide +kernel))

/-- A row of weight `i64::MAX` and a row behind it. -/
def largeEpochs : List (ArrowZSet × SpillEnv) :=
  [(.ofPairs [((some 5, some 1), 2 ^ 63 - 1), ((some 4, some 1), 1)], calm)]

/-- The limit is clamped to `i64::MAX`: of the first `2 ^ 63` rows the last one is not emitted. -/
theorem large_limit_clamped : ∃ outputs final,
    Loop.run (sampleOp (2 ^ 63)).processEpoch (initial none) largeEpochs = .ok (outputs, final) ∧
      (sampleOp (2 ^ 63)).topkWeight (inputRows largeEpochs) [4, 1] = 1 ∧
      weight (outputs.flatMap ArrowZSet.valued) (valuesRow [4, 1]) = 0 := by
  have first : (sampleOp (2 ^ 63)).topkWeight (inputRows largeEpochs) [4, 1] = 1 := by
    have ordered : (sampleOp (2 ^ 63)).ranked (inputRows largeEpochs)
        ((sampleOp (2 ^ 63)).partitionOf [4, 1]) = [[5, 1], [4, 1]] := by decide +kernel
    have head : (weight (inputRows largeEpochs) [5, 1]).toNat = 2 ^ 63 - 1 := by decide +kernel
    have last : (weight (inputRows largeEpochs) [4, 1]).toNat = 1 := by decide +kernel
    rw [topkWeight, ordered, count_take_expand_of_ne _ (by decide), head,
      count_take_expand_self (by decide), last]
    simp [sampleOp]
  obtain ⟨⟨outputs, final⟩, ran, hidden⟩ := Loop.exists_ok_of_any
    (Loop.run (sampleOp (2 ^ 63)).processEpoch (initial none) largeEpochs)
    (fun result => weight (result.1.flatMap ArrowZSet.valued) (valuesRow [4, 1]) = 0)
    (by decide +kernel)
  exact ⟨outputs, final, ran, first, of_decide_eq_true hidden⟩

end TopKOp

end RockStream
