import RockStream.TimeWindow.SessionRows

/-!
Contract: the loops of one epoch of session windows.

An epoch adds its admitted rows to their partitions and recomputes the sessions of the
partitions that got rows. Which rows are admitted depends on the frontier alone.

Owns:
- `Admits`, what an epoch decides about a row, and `Applied`, the state after some rows;
- the sessions of a partition, and what is emitted for them;
- `EmittedPartitions`, the state after the emission loop, and the emitted rows.

Does not own: runs of epochs.
-/

namespace RockStream

open Lib Lib.Weighted RowMap List EmittedMap

/-! ## Admitted rows -/

/-- A row is admitted unless it is an insertion behind the frontier and the policy is `Drop`. -/
def SessionWindowOp.Admits (op : SessionWindowOp) (watermark : Int) (row : List Int64 × Int) :
    Prop :=
  row.2 ≠ 0 ∧
    ¬ (0 < row.2 ∧ sessionTime op.timeCol row.1 < watermark ∧ op.lateDataPolicy = .drop)

instance (op : SessionWindowOp) (watermark : Int) (row : List Int64 × Int) :
    Decidable (op.Admits watermark row) :=
  inferInstanceAs (Decidable (_ ∧ _))

/-! ## The row loop -/

namespace SessionWindowOp

def partitionOf (op : SessionWindowOp) (vals : List Int64) : Bytes :=
  encodePartitionKey vals op.timeCol

def InPartition (op : SessionWindowOp) (partitionKey : Bytes) (vals : List Int64) : Prop :=
  vals.length = op.nInputCols ∧ op.partitionOf vals = partitionKey

theorem distinguishes_inPartition (op : SessionWindowOp) (partitionKey : Bytes) :
    RowMap.Distinguishes rowKey (op.InPartition partitionKey) :=
  fun _ _ _ _ same => rowKey_injective same

/-- The rows of a state are kept under their keys, in their partitions. -/
def KeyedRows (op : SessionWindowOp) (state : SessionWindowState) : Prop :=
  ∀ partitionKey, RowMap.KeyedBy rowKey (op.InPartition partitionKey)
    (state.partition partitionKey).rows

structure Applied (op : SessionWindowOp) (watermark : Int) (start : SessionWindowState)
    (done : List (List Int64 × Int)) (current : SessionWindowState × HashSet Bytes) : Prop where
  filled : Filled rowKey op.InPartition (fun vals => (op.partitionOf vals, vals))
    (fun partitionKey => (start.partition partitionKey).rows)
    (done.filter fun row => op.Admits watermark row)
    (fun partitionKey => (current.1.partition partitionKey).rows) current.2
  emitted : ∀ partitionKey, (current.1.partition partitionKey).prevOutput =
    (start.partition partitionKey).prevOutput
  frontier : current.1.inputFrontier = start.inputFrontier

variable {op : SessionWindowOp} {watermark : Int} {start : SessionWindowState}
  {done : List (List Int64 × Int)} {current next : SessionWindowState × HashSet Bytes}

theorem partition_of_insert (state : SessionWindowState) {next : SessionWindowState}
    {partitionKey : Bytes}
    {partition : SessionPartitionState}
    (replaced : next.partitions = state.partitions.insert partitionKey partition) (query : Bytes) :
    next.partition query = if query = partitionKey then partition else state.partition query := by
  unfold SessionWindowState.partition
  rw [replaced, HashMap.lookup_insert_eq]
  split <;> rfl

theorem Applied.nil (keyed : op.KeyedRows start) : op.Applied watermark start [] (start, ∅) where
  filled := .nil keyed
  emitted := fun _ => rfl
  frontier := rfl

theorem Applied.refuse (applied : op.Applied watermark start done current) {row : List Int64 × Int}
    (refused : ¬ op.Admits watermark row) : op.Applied watermark start (done ++ [row]) current := by
  have same : (done ++ [row]).filter (fun row => op.Admits watermark row) =
      done.filter fun row => op.Admits watermark row := by
    simp [refused]
  exact ⟨same ▸ applied.filled, applied.emitted, applied.frontier⟩

theorem Applied.accept (applied : op.Applied watermark start done current)
    (row : List Int64 × Int) (length : row.1.length = op.nInputCols)
    (admitted : op.Admits watermark row) {rows kept : RowMap (List Int64)}
    (added : (current.1.partition (op.partitionOf row.1)).rows.addRow (rowKey row.1) row.1 row.2 =
      .ok rows)
    (isKept : kept = if rows.weightAt (rowKey row.1) = 0 then rows.erase (rowKey row.1) else rows)
    {state : SessionWindowState} (sameFrontier : state.inputFrontier = current.1.inputFrontier)
    (isState : ∀ query, state.partition query = if query = op.partitionOf row.1 then
      { current.1.partition (op.partitionOf row.1) with rows := kept }
      else current.1.partition query) :
    op.Applied watermark start (done ++ [row])
      (state, current.2.insert (op.partitionOf row.1) ()) := by
  have grown : (done ++ [row]).filter (fun row => op.Admits watermark row) =
      (done.filter fun row => op.Admits watermark row) ++ [row] := by
    simp [admitted]
  have inside : op.InPartition (op.partitionOf row.1) row.1 := ⟨length, rfl⟩
  have distinguishes := op.distinguishes_inPartition (op.partitionOf row.1)
  obtain ⟨keyedRows, weights⟩ := addRow_spec distinguishes (applied.filled.keyed _) inside added
  have keptWeight : ∀ key, kept.weightAt key = rows.weightAt key := by
    intro key
    rw [isKept]
    split
    · next zero => exact weightAt_erase_of_zero zero key
    · rfl
  have keyedKept : RowMap.KeyedBy rowKey (op.InPartition (op.partitionOf row.1)) kept := by
    rw [isKept]
    split
    · exact keyedRows.erase _
    · exact keyedRows
  refine ⟨grown ▸ applied.filled.add (fun _ _ same => (Prod.ext_iff.mp same).2)
    distinguishes inside keyedKept
    (fun key => (keptWeight key).trans (weights key)) fun query => ?_, ?_,
    sameFrontier.trans applied.frontier⟩
  · rw [isState]
    split <;> rfl
  · intro query
    rw [isState, ← applied.emitted]
    split
    · next same => rw [same]
    · rfl

section

variable (isWatermark : currentWatermark start.inputFrontier (-2 ^ 63) = watermark)
include isWatermark

theorem Applied.step (applied : op.Applied watermark start done current) {cells : List Cell × Int}
    (length : cells.1.length = op.nInputCols) (stepped : op.processRow current cells = .ok next) :
    op.Applied watermark start (done ++ [(extractRowVals cells.1, cells.2)]) next := by
  unfold processRow at stepped
  split at stepped
  · next zero =>
    cases stepped
    exact applied.refuse fun admitted => admitted.1 zero
  · next nonzero =>
    dsimp only at stepped
    rw [take_of_length_le length.le, applied.frontier, isWatermark] at stepped
    generalize isVals : extractRowVals cells.1 = vals at stepped ⊢
    have valsLength : vals.length = op.nInputCols := by
      rw [← isVals, extractRowVals, length_map, length]
    split at stepped
    · next late =>
      cases stepped
      simp only [Bool.and_eq_true, decide_eq_true_eq] at late
      exact applied.refuse fun admitted => admitted.2 ⟨late.1.1, late.1.2, late.2⟩
    · next timely =>
      simp only [Bool.and_eq_true, decide_eq_true_eq, not_and] at timely
      obtain ⟨rows, added, ended⟩ := Loop.bind_eq_ok.mp stepped
      have admitted : op.Admits watermark (vals, cells.2) :=
        ⟨nonzero, fun late => timely ⟨late.1, late.2.1⟩ late.2.2⟩
      cases ended
      refine applied.accept (vals, cells.2) valsLength admitted added rfl ?_ ?_
      · exact applied.frontier.symm
      · exact partition_of_insert _ rfl

theorem applied_rows
    {cells : List (List Cell × Int)} (wide : ∀ row ∈ cells, row.1.length = op.nInputCols)
    (keyed : op.KeyedRows start) (ended : cells.foldlM op.processRow (start, ∅) = .ok next) :
    op.Applied watermark start (cells.map fun row => (extractRowVals row.1, row.2)) next := by
  refine Loop.foldlM_invariant_of_mem (fun done current =>
    op.Applied watermark start (done.map fun row => (extractRowVals row.1, row.2)) current)
    ?_ (Applied.nil keyed) ended
  intro done current row next mem _ held stepped
  rw [map_append]
  exact held.step isWatermark (wide row mem) stepped

end

/-! ## Sessions of a partition -/

def taggedKey (tagged : List Int64) : Bytes := rowKey (tagged.drop 2)

section Sessions

variable {partitionKey : Bytes} {rows : RowMap (List Int64)}
  (keyed : RowMap.KeyedBy rowKey (op.InPartition partitionKey) rows)

include keyed

theorem mem_sessionsOf (session : Int × Int × List Int64) : session ∈ op.sessionsOf rows ↔
    (op.InPartition partitionKey session.2.2 ∧ 0 < rows.weightAt (rowKey session.2.2)) ∧
      GapGroup op.gapMs (sessionTimes op.timeCol
        ((rows.values.filter fun row => 0 < row.2).map Prod.fst)) session.1 session.2.1 ∧
      session.1 ≤ sessionTime op.timeCol session.2.2 ∧
      sessionTime op.timeCol session.2.2 ≤ session.2.1 := by
  unfold sessionsOf
  rw [mem_deriveSessions, mem_positiveValues (op.distinguishes_inPartition partitionKey) keyed]

/-- The bounds of a session are event times, so they are in range. -/
theorem inI64_of_mem_sessionsOf {session : Int × Int × List Int64}
    (mem : session ∈ op.sessionsOf rows) : InI64 session.1 ∧ InI64 session.2.1 := by
  obtain ⟨_, group, _⟩ := (mem_sessionsOf keyed session).mp mem
  obtain ⟨first, _, isFirst⟩ := group.firstMember
  obtain ⟨last, _, isLast⟩ := group.lastMember
  exact ⟨isFirst ▸ sessionTime_inI64 _ first, isLast ▸ sessionTime_inI64 _ last⟩

theorem lookup_newOutput (key : Bytes) (tagged : List Int64) :
    (newOutput (op.sessionsOf rows)).lookup key = some tagged ↔
      ∃ session ∈ op.sessionsOf rows, rowKey session.2.2 = key ∧ sessionTag session = tagged := by
  refine HashMap.lookup_foldl_insert (fun session : Int × Int × List Int64 => rowKey session.2.2)
    sessionTag ?_ key tagged
  rintro ⟨start, stop, vals⟩ isFirst ⟨start', stop', vals'⟩ isSecond sameKey
  obtain ⟨_, group, starts, ends⟩ := (mem_sessionsOf keyed _).mp isFirst
  obtain ⟨_, group', starts', ends'⟩ := (mem_sessionsOf keyed _).mp isSecond
  have sameRow : vals = vals' := rowKey_injective sameKey
  subst sameRow
  obtain ⟨sameStart, sameStop⟩ := group.unique group' starts ends starts' ends'
  dsimp only at sameStart sameStop
  rw [sameStart, sameStop]

/-- A shown row is a row of the partition behind two bounds, under its key. -/
theorem tagged_of_lookup_newOutput {key : Bytes} {tagged : List Int64}
    (found : (newOutput (op.sessionsOf rows)).lookup key = some tagged) :
    taggedKey tagged = key ∧ tagged.length = op.nInputCols + 2 ∧
      op.partitionOf (tagged.drop 2) = partitionKey := by
  obtain ⟨session, mem, isKey, rfl⟩ := (lookup_newOutput keyed key tagged).mp found
  obtain ⟨⟨inside, _⟩, _⟩ := (mem_sessionsOf keyed session).mp mem
  refine ⟨isKey, ?_, inside.2⟩
  rw [sessionTag, length_cons, length_cons, inside.1]

/-- What is shown of a row behind two bounds. -/
theorem lookup_newOutput_tagged (start stop : Int64) (vals : List Int64) :
    (newOutput (op.sessionsOf rows)).lookup (rowKey vals) = some (start :: stop :: vals) ↔
      (start.toInt, stop.toInt, vals) ∈ op.sessionsOf rows := by
  rw [lookup_newOutput keyed]
  constructor
  · rintro ⟨⟨first, last, row⟩, mem, _, isTagged⟩
    obtain ⟨firstRange, lastRange⟩ := inI64_of_mem_sessionsOf keyed mem
    obtain ⟨isStart, isRest⟩ := cons.inj isTagged
    obtain ⟨isStop, rfl⟩ := cons.inj isRest
    rw [← isStart, ← isStop, Int64.toInt_ofInt_of_le firstRange.1 firstRange.2,
      Int64.toInt_ofInt_of_le lastRange.1 lastRange.2]
    exact mem
  · intro mem
    refine ⟨_, mem, rfl, ?_⟩
    rw [sessionTag, Int64.ofInt_toInt, Int64.ofInt_toInt]

end Sessions

/-! ## Emission -/

/-- What a state has emitted is kept under the keys of the rows, in their partitions. -/
def KeyedEmitted (op : SessionWindowOp) (state : SessionWindowState) : Prop :=
  ∀ partitionKey key tagged, (state.partition partitionKey).prevOutput.lookup key = some tagged →
    taggedKey tagged = key ∧ tagged.length = op.nInputCols + 2 ∧
      op.partitionOf (tagged.drop 2) = partitionKey

structure EmittedPartitions (op : SessionWindowOp) (start : SessionWindowState) (done : List Bytes)
    (current : (List (List Int64 × Int) × Nat) × SessionWindowState) : Prop where
  widths : HaveWidth (op.nInputCols + 2) current.1.1
  weights : ∀ tagged, weight current.1.1 tagged =
    if op.partitionOf (tagged.drop 2) ∈ done then
      EmittedMap.shows taggedKey
          (newOutput (op.sessionsOf (start.partition (op.partitionOf (tagged.drop 2))).rows))
            tagged -
        EmittedMap.shows taggedKey
          (start.partition (op.partitionOf (tagged.drop 2))).prevOutput tagged
    else 0
  rows : ∀ partitionKey, (current.2.partition partitionKey).rows =
    (start.partition partitionKey).rows
  emitted : ∀ partitionKey, (current.2.partition partitionKey).prevOutput =
    if partitionKey ∈ done then newOutput (op.sessionsOf (start.partition partitionKey).rows)
    else (start.partition partitionKey).prevOutput
  frontier : current.2.inputFrontier = start.inputFrontier

theorem EmittedPartitions.step (keyed : op.KeyedRows start) (keyedEmitted : op.KeyedEmitted start)
    {done : List Bytes} {partitionKey : Bytes} (fresh : partitionKey ∉ done)
    {output next : (List (List Int64 × Int) × Nat) × SessionWindowState}
    (emitted : op.EmittedPartitions start done output)
    (stepped : op.emitPartition output partitionKey = .ok next) :
    op.EmittedPartitions start (done ++ [partitionKey]) next := by
  unfold emitPartition at stepped
  dsimp only at stepped
  split at stepped
  · cases stepped
  cases stepped
  have oldEmitted : (output.2.partition partitionKey).prevOutput =
      (start.partition partitionKey).prevOutput := by
    rw [emitted.emitted, if_neg fresh]
  rw [emitted.rows, oldEmitted]
  have taggedNew : ∀ key tagged,
      (newOutput (op.sessionsOf (start.partition partitionKey).rows)).lookup
      key = some tagged → _ := fun _ _ => tagged_of_lookup_newOutput (keyed partitionKey)
  have taggedOld := keyedEmitted partitionKey
  generalize isChanges : changes (fun found vals => decide (found = some vals))
    (start.partition partitionKey).prevOutput
    (newOutput (op.sessionsOf (start.partition partitionKey).rows)) = changes
  -- Every change is a row of this partition behind two bounds.
  have ofPartition : ∀ row ∈ changes, row.1.length = op.nInputCols + 2 ∧
      op.partitionOf (row.1.drop 2) = partitionKey := by
    intro row mem
    rw [← isChanges] at mem
    obtain ⟨key, found | found⟩ := mem_changes mem
    · exact (taggedOld key row.1 found).2
    · exact (taggedNew key row.1 found).2
  have changedWeights : ∀ tagged, weight changes tagged = shows taggedKey
      (newOutput (op.sessionsOf (start.partition partitionKey).rows)) tagged -
        shows taggedKey (start.partition partitionKey).prevOutput tagged := by
    intro tagged
    rw [← isChanges]
    exact weight_changes (fun key vals found => (taggedOld key vals found).1)
      (fun key vals found => (taggedNew key vals found).1)
      (fun _ _ _ => decide_eq_true_iff) tagged
  refine ⟨?_, ?_, ?_, ?_, emitted.frontier⟩
  · intro row mem
    rcases mem_append.mp mem with old | new
    · exact emitted.widths row old
    · exact (ofPartition row new).1
  · intro tagged
    rw [weight_append, emitted.weights]
    by_cases isHere : op.partitionOf (tagged.drop 2) = partitionKey
    · rw [isHere, if_neg fresh, if_pos (by simp), zero_add, changedWeights]
    · have absent : weight changes tagged = 0 := by
        refine weight_eq_zero_of_absent fun row mem same => isHere ?_
        rw [← same]
        exact (ofPartition row mem).2
      rw [absent, add_zero]
      simp [isHere]
  · intro query
    rw [partition_of_insert output.2 rfl]
    split
    · next same => rw [same]
    · exact emitted.rows query
  · intro query
    rw [partition_of_insert output.2 rfl]
    split
    · next same => rw [same, if_pos (by simp)]
    · next ne =>
      rw [emitted.emitted]
      simp [ne]

theorem emittedPartitions (keyed : op.KeyedRows start) (keyedEmitted : op.KeyedEmitted start)
    {partitionKeys : List Bytes} (distinct : partitionKeys.Nodup) {total : Nat}
    {final : (List (List Int64 × Int) × Nat) × SessionWindowState}
    (ended : partitionKeys.foldlM op.emitPartition (([], total), start) = .ok final) :
    op.EmittedPartitions start partitionKeys final := by
  refine Loop.foldlM_invariant_of_mem (op.EmittedPartitions start) ?_
    ⟨by simp [HaveWidth], by simp, by simp, by simp, rfl⟩ ended
  intro done current partitionKey next _ fresh held stepped
  exact held.step keyed keyedEmitted (fresh distinct) stepped

end SessionWindowOp

end RockStream
