import RockStream.Join.Op
import RockStream.Int64Rows

/-!
Contract: the incremental outer, semi and anti equi-join operator
(`rockstream-ops/src/outer_join.rs`).

Owns: `OuterJoinOp` and its in-memory epoch path for all six kinds: staging, the inner
join, the NULL-pad and visibility transitions, and `commit_staged` with the key-weight
maps, the NULL and total counters, the dirty sets and the bytes counter.

Does not own: persistence and restore.
-/

namespace RockStream

open Lib

inductive OuterJoinKind where
  | left
  | right
  | full
  | semi
  | anti
  | nullAwareAnti
deriving DecidableEq, Repr

/-- One side's staged delta, with the weight of its NULL-key rows. -/
structure OuterStagedDelta extends StagedDelta where
  nullWeight : Int

def OuterStagedDelta.empty : OuterStagedDelta := { StagedDelta.empty with nullWeight := 0 }

/-- What an `OuterJoinOp` is constructed with. -/
structure OuterJoinOp where
  opId : UInt64
  kind : OuterJoinKind
  leftKeyCols : List Nat
  rightKeyCols : List Nat
  leftNCols : Nat
  rightNCols : Nat

/-- The mutable part of an `OuterJoinOp`. -/
structure OuterJoinState where
  leftArr : Arrangement
  rightArr : Arrangement
  rightKeyWeight : HashMap Bytes Int
  rightNullWeight : Int
  rightTotalWeight : Int
  leftKeyWeight : HashMap Bytes Int
  stateBytes : Nat
  leftStaged : OuterStagedDelta
  rightStaged : OuterStagedDelta
  dirtyLeft : HashSet (Bytes × BitVec 128)
  dirtyRight : HashSet (Bytes × BitVec 128)
  dirtyRw : HashSet Bytes
  dirtyLw : HashSet Bytes
  dirtyNullWeight : Bool

def OuterJoinState.new : OuterJoinState :=
  { leftArr := ∅, rightArr := ∅, rightKeyWeight := ∅, rightNullWeight := 0, rightTotalWeight := 0,
    leftKeyWeight := ∅, stateBytes := 0, leftStaged := .empty, rightStaged := .empty,
    dirtyLeft := ∅, dirtyRight := ∅, dirtyRw := ∅, dirtyLw := ∅, dirtyNullWeight := false }

def outerJoinOutputSchema (kind : OuterJoinKind) (left right : List Field) : List Field :=
  let leftPadded := kind = .right ∨ kind = .full
  let rightPadded := kind = .left ∨ kind = .full
  (left.zipIdx.map fun field =>
      ⟨s!"l_{field.2}", .int64, decide leftPadded || field.1.nullable⟩) ++
    if kind = .semi ∨ kind = .anti ∨ kind = .nullAwareAnti then []
    else right.zipIdx.map fun field =>
      ⟨s!"r_{field.2}", .int64, decide rightPadded || field.1.nullable⟩

namespace OuterJoinOp

variable (op : OuterJoinOp)

/-! ## Rows and keys -/

/-- `extract_key`: the typed key bytes and whether a component is NULL. -/
def extractKey (cells : List Cell) (keyCols : List Nat) : Exec (Bytes × Bool) := do
  let capsule ← keyCapsule cells keyCols
  pure (capsule.typedBytes, capsule.containsNull)

/-- The value bytes of one column: zero for NULL. -/
def serializeCell (cell : Cell) : Exec Bytes :=
  match cell.int64? with
  | some value => .ok (Bytes.ofInt64 (if cell.valid then value else 0))
  | none => .error (.panicked "Int64")

/-- One validity byte per column, when a column is NULL. -/
def validityBytes (cells : List Cell) : Bytes :=
  if cells.any (fun cell => !cell.valid) then
    cells.map fun cell => if cell.valid then 1 else 0
  else []

def serializeRow (cells : List Cell) : Exec Bytes := do
  let words ← cells.mapM serializeCell
  pure (words.flatten ++ validityBytes cells)

def deserializeRow (bytes : Bytes) (nCols : Nat) : Exec Int64Row :=
  let valuesLen := nCols * 8
  if (bytes.length ≠ valuesLen ∧ bytes.length ≠ valuesLen + nCols) ∨
      (bytes.drop valuesLen).any (fun valid => 1 < valid) then
    .error (.err (.storage "malformed outer join row encoding"))
  else
    .ok ((Bytes.words (bytes.take valuesLen)).zipIdx.map fun word =>
      if bytes[valuesLen + word.2]?.all (fun valid => valid ≠ 0) then some word.1 else none)

/-- The staged entry of a key and a row. The bucket of a NULL key holds that one row: `mark` tells
the sides apart. -/
def entryOf (mark : UInt8) (capsuleKey : Bytes) (isNull : Bool) (rowBytes : Bytes) : Entry :=
  let rowId := stableRowId op.opId capsuleKey rowBytes
  let joinKey := if isNull then capsuleKey ++ Bytes.beBytes 16 rowId.toNat ++ [mark] else capsuleKey
  ⟨joinKey, rowId, rowBytes⟩

/-- The entry a row is staged as, and whether its key contains NULL. -/
def stagedEntry (keyCols : List Nat) (mark : UInt8) (cells : List Cell) : Exec (Entry × Bool) := do
  let (capsuleKey, isNull) ← extractKey cells keyCols
  let rowBytes ← serializeRow cells
  pure (op.entryOf mark capsuleKey isNull rowBytes, isNull)

def stageLeftRow (state : OuterJoinState) (row : List Cell × Int) :
    Step OuterJoinState OuterJoinState := do
  let (entry, _) ← Exec.within state (op.stagedEntry op.leftKeyCols 0 row.1)
  pure { state with leftStaged :=
    { state.leftStaged with toStagedDelta := state.leftStaged.push entry row.2 } }

def stageRightRow (state : OuterJoinState) (row : List Cell × Int) :
    Step OuterJoinState OuterJoinState := do
  let (entry, isNull) ← Exec.within state (op.stagedEntry op.rightKeyCols 1 row.1)
  let pushed := { state.rightStaged with toStagedDelta := state.rightStaged.push entry row.2 }
  if isNull then
    let nullWeight ← Exec.within { state with rightStaged := pushed }
      (addI64 state.rightStaged.nullWeight row.2)
    pure { state with rightStaged := { pushed with nullWeight } }
  else
    pure { state with rightStaged := pushed }

def stageLeft (state : OuterJoinState) (delta : ArrowZSet) : Step OuterJoinState OuterJoinState :=
  delta.rows.foldlM op.stageLeftRow state

def stageRight (state : OuterJoinState) (delta : ArrowZSet) : Step OuterJoinState OuterJoinState :=
  delta.rows.foldlM op.stageRightRow state

/-! ## Output batches -/

/-- `RecordBatch::try_new` on Int64 columns given by rows; the number of columns is checked even
when there are no rows. -/
def int64Batch (columns : Nat) (rows : List (Int64Row × Int)) (schema : List Field) :
    Exec ArrowZSet :=
  if columns = schema.length then
    ArrowZSet.tryNew schema (rows.map fun row => (row.1.map Cell.ofInt64?, row.2))
  else
    .error (.err .arrow)

/-- `make_output_batch`: a side that is padded is NULL in every column. -/
def makeOutputBatch (rows : List ((Int64Row × Int64Row) × Int))
    (schema : List Field) (leftIsNull rightIsNull : Bool) : Exec ArrowZSet :=
  let mask (isNull : Bool) (values : Int64Row) : Int64Row :=
    values.map fun value => if isNull then none else value
  int64Batch (op.leftNCols + op.rightNCols)
    (rows.map fun row => (mask leftIsNull row.1.1 ++ mask rightIsNull row.1.2, row.2)) schema

def makeSemiBatch (rows : List (Int64Row × Int)) (schema : List Field) : Exec ArrowZSet :=
  int64Batch op.leftNCols rows schema

def pushNonempty {α : Type} (rows : List α) (make : List α → Exec ArrowZSet) :
    Exec (List ArrowZSet) :=
  if rows.isEmpty then pure [] else do
    let batch ← make rows
    pure [batch]

/-! ## Delta maps -/

/-- `delta_rw` / `delta_lw`: the staged weight per key. -/
def deltaByKey (rows : List (Entry × Int)) : Exec (HashMap Bytes Int) :=
  rows.foldlM (fun map row => do
    let weight ← addI64 ((map.lookup row.1.joinKey).getD 0) row.2
    pure (map.insert row.1.joinKey weight)) ∅

def stagedRowsByKey (rows : List (Entry × Int)) : HashMap Bytes (List (Bytes × Int)) :=
  HashMap.groupBy (fun row => row.1.joinKey) (fun row => (row.1.rowBytes, row.2)) rows

def sumValues (map : HashMap Bytes Int) : Exec Int :=
  map.values.foldlM addI64 0

/-! ## The inner join -/

/-- One output row of `compute_inner_join_output`. -/
def joinBytes (left right : Bytes × Int) : Exec ((Int64Row × Int64Row) × Int) := do
  let leftVals ← deserializeRow left.1 op.leftNCols
  let rightVals ← deserializeRow right.1 op.rightNCols
  let weight ← mulI64 left.2 right.2
  pure ((leftVals, rightVals), weight)

/-- `compute_inner_join_output`: `ΔL ⋈ R₀`, `L₀ ⋈ ΔR`, `ΔL ⋈ ΔR`. -/
def computeInnerJoinOutput (state : OuterJoinState)
    (rightStagedRows : HashMap Bytes (List (Bytes × Int))) (schema : List Field) :
    Exec ArrowZSet := do
  let fromLeft ← state.leftStaged.rows.mapM fun row =>
    (state.rightArr.probe row.1.joinKey).mapM (op.joinBytes (row.1.rowBytes, row.2))
  let fromRight ← state.rightStaged.rows.mapM fun row =>
    (state.leftArr.probe row.1.joinKey).mapM fun other =>
      op.joinBytes other (row.1.rowBytes, row.2)
  let both ← state.leftStaged.rows.mapM fun row =>
    ((rightStagedRows.lookup row.1.joinKey).getD []).mapM (op.joinBytes (row.1.rowBytes, row.2))
  op.makeOutputBatch (fromLeft.flatten ++ fromRight.flatten ++ both.flatten) schema false false

/-! ## Rows that appear or disappear with the match weight of their key -/

/-- Rows already arranged whose key gains or loses its match: `emit` sees whether the key was
unmatched before. -/
def transitions {α : Type} (deltas weights : HashMap Bytes Int) (probe : Bytes → List (Bytes × Int))
    (emit : Bool → Bytes × Int → Exec α) : Exec (List α) := do
  let parts ← deltas.toPairs.mapM fun pair => do
    let old := (weights.lookup pair.1).getD 0
    let new ← addI64 old pair.2
    if decide (old = 0) ≠ decide (new = 0) then
      (probe pair.1).mapM (emit (decide (old = 0)))
    else
      pure []
  pure parts.flatten

/-- Staged rows whose key has a given match status at the end of the epoch. -/
def arrivals {α : Type} (staged : List (Entry × Int)) (deltas weights : HashMap Bytes Int)
    (keep : Int → Bool) (emit : Bytes × Int → Exec α) : Exec (List α) := do
  let parts ← staged.mapM fun row => do
    let effective ← addI64 ((weights.lookup row.1.joinKey).getD 0)
      ((deltas.lookup row.1.joinKey).getD 0)
    if keep effective then do
      let out ← emit (row.1.rowBytes, row.2)
      pure [out]
    else
      pure []
  pure parts.flatten

def padRight (row : Bytes × Int) : Exec ((Int64Row × Int64Row) × Int) := do
  let leftVals ← deserializeRow row.1 op.leftNCols
  pure ((leftVals, List.replicate op.rightNCols none), row.2)

def padLeft (row : Bytes × Int) : Exec ((Int64Row × Int64Row) × Int) := do
  let rightVals ← deserializeRow row.1 op.rightNCols
  pure ((List.replicate op.leftNCols none, rightVals), row.2)

/-- A padded row is retracted when its key was unmatched, and added otherwise. -/
def padTransition {α : Type} (pad : Bytes × Int → Exec (α × Int)) (wasUnmatched : Bool)
    (row : Bytes × Int) : Exec (α × Int) := do
  let (values, _) ← pad row
  let weight ← if wasUnmatched then negI64 row.2 else pure row.2
  pure (values, weight)

def leftRow (row : Bytes × Int) : Exec (Int64Row × Int) := do
  let leftVals ← deserializeRow row.1 op.leftNCols
  pure (leftVals, row.2)

def signedRow (sign : Int) (row : Bytes × Int) : Exec (Int64Row × Int) := do
  let leftVals ← deserializeRow row.1 op.leftNCols
  let weight ← mulI64 sign row.2
  pure (leftVals, weight)

/-! ## Committing the staged deltas -/

/-- The update of a key-weight map at one key; a weight that reaches zero is removed. -/
def updateKeyWeight (current : HashMap Bytes Int × Nat × HashSet Bytes) (pair : Bytes × Int) :
    Exec (HashMap Bytes Int × Nat × HashSet Bytes) := do
  let (weights, stateBytes, dirty) := current
  let keyLen := pair.1.length
  let dirty := dirty.insert pair.1 ()
  let stateBytes := if weights.lookup pair.1 = none then stateBytes + (keyLen + 8) else stateBytes
  let weight ← addI64 ((weights.lookup pair.1).getD 0) pair.2
  if weight = 0 then
    pure (weights.erase pair.1, stateBytes - (keyLen + 8), dirty)
  else
    pure (weights.insert pair.1 weight, stateBytes, dirty)

def commitNullAware (deltaRw : HashMap Bytes Int) (nullDelta : Int)
    (state : OuterJoinState) : Exec OuterJoinState :=
  if op.kind = .nullAwareAnti then do
    let totalDelta ← sumValues deltaRw
    let oldBytes := if 0 < state.rightTotalWeight then 16 else 0
    let rightTotalWeight ← addI64 state.rightTotalWeight totalDelta
    let rightNullWeight ← addI64 state.rightNullWeight nullDelta
    let newBytes := if 0 < rightTotalWeight then 16 else 0
    pure { state with
      rightTotalWeight, rightNullWeight
      stateBytes := state.stateBytes - oldBytes + newBytes
      dirtyNullWeight :=
        if totalDelta ≠ 0 ∨ nullDelta ≠ 0 then true else state.dirtyNullWeight }
  else
    pure state

def commitStaged (deltaRw : HashMap Bytes Int)
    (deltaLw : Option (HashMap Bytes Int)) (state : OuterJoinState) : Exec OuterJoinState := do
  let left ← Arranged.drain ⟨state.leftArr, state.stateBytes, state.dirtyLeft⟩ state.leftStaged.rows
  let right ← Arranged.drain ⟨state.rightArr, left.stateBytes, state.dirtyRight⟩
    state.rightStaged.rows
  let nullDelta := state.rightStaged.nullWeight
  let state := { state with
    leftArr := left.arr, rightArr := right.arr, stateBytes := right.stateBytes
    dirtyLeft := left.dirty, dirtyRight := right.dirty
    leftStaged := { StagedDelta.empty with nullWeight := state.leftStaged.nullWeight }
    rightStaged := .empty }
  let state ← op.commitNullAware deltaRw nullDelta state
  let (rightKeyWeight, stateBytes, dirtyRw) ← deltaRw.toPairs.foldlM updateKeyWeight
    (state.rightKeyWeight, state.stateBytes, state.dirtyRw)
  let state := { state with rightKeyWeight, stateBytes, dirtyRw }
  match deltaLw with
  | none => pure state
  | some deltaLw => do
    let (leftKeyWeight, stateBytes, dirtyLw) ← deltaLw.toPairs.foldlM updateKeyWeight
      (state.leftKeyWeight, state.stateBytes, state.dirtyLw)
    pure { state with leftKeyWeight, stateBytes, dirtyLw }

/-! ## The six kinds -/

/-- What a kind computes before the commit: its output batches, and the delta maps it hands to
`commit_staged`. -/
structure EpochResult where
  outputs : List ArrowZSet
  deltaRw : HashMap Bytes Int
  deltaLw : Option (HashMap Bytes Int)

variable (state : OuterJoinState)

/-- NULL-pads of left rows whose key gains or loses its right match. -/
def leftPadTransitions (deltaRw : HashMap Bytes Int)
    (schema : List Field) : Exec (List ArrowZSet) := do
  let rows ← transitions deltaRw state.rightKeyWeight state.leftArr.probe
    (padTransition op.padRight)
  pushNonempty rows (op.makeOutputBatch · schema false true)

def leftPadArrivals (deltaRw : HashMap Bytes Int)
    (schema : List Field) : Exec (List ArrowZSet) := do
  let rows ← arrivals state.leftStaged.rows deltaRw state.rightKeyWeight (fun weight => weight = 0)
    op.padRight
  pushNonempty rows (op.makeOutputBatch · schema false true)

def rightPadTransitions (deltaLw : HashMap Bytes Int)
    (schema : List Field) : Exec (List ArrowZSet) := do
  let rows ← transitions deltaLw state.leftKeyWeight state.rightArr.probe
    (padTransition op.padLeft)
  pushNonempty rows (op.makeOutputBatch · schema true false)

def rightPadArrivals (deltaLw : HashMap Bytes Int)
    (schema : List Field) : Exec (List ArrowZSet) := do
  let rows ← arrivals state.rightStaged.rows deltaLw state.leftKeyWeight (fun weight => weight = 0)
    op.padLeft
  pushNonempty rows (op.makeOutputBatch · schema true false)

def innerOutput (schema : List Field) : Exec (List ArrowZSet) := do
  let inner ← op.computeInnerJoinOutput state (stagedRowsByKey state.rightStaged.rows) schema
  pure (if inner.rows.isEmpty then [] else [inner])

/-- The body of `process_epoch_left`. Its extra `old_rw == new_rw` test skips keys whose status
cannot change. -/
def leftOutputs (schema : List Field) : Exec EpochResult := do
  let deltaRw ← deltaByKey state.rightStaged.rows
  let inner ← op.innerOutput state schema
  let padded ← op.leftPadTransitions state deltaRw schema
  let arrived ← op.leftPadArrivals state deltaRw schema
  pure ⟨inner ++ padded ++ arrived, deltaRw, none⟩

def rightOutputs (schema : List Field) : Exec EpochResult := do
  let deltaLw ← deltaByKey state.leftStaged.rows
  let inner ← op.innerOutput state schema
  let padded ← op.rightPadTransitions state deltaLw schema
  let arrived ← op.rightPadArrivals state deltaLw schema
  pure ⟨inner ++ padded ++ arrived, ∅, some deltaLw⟩

def fullOutputs (schema : List Field) : Exec EpochResult := do
  let deltaRw ← deltaByKey state.rightStaged.rows
  let deltaLw ← deltaByKey state.leftStaged.rows
  let inner ← op.innerOutput state schema
  let leftPadded ← op.leftPadTransitions state deltaRw schema
  let rightPadded ← op.rightPadTransitions state deltaLw schema
  let leftArrived ← op.leftPadArrivals state deltaRw schema
  let rightArrived ← op.rightPadArrivals state deltaLw schema
  pure ⟨inner ++ leftPadded ++ rightPadded ++ leftArrived ++ rightArrived, deltaRw, some deltaLw⟩

/-- The shared body of `process_epoch_semi` and `process_epoch_anti`: left rows whose match status
is `keep`, with the sign of a row whose key was unmatched. -/
def filterOutputs (keep : Int → Bool) (unmatchedSign : Int)
    (state : OuterJoinState) (schema : List Field) : Exec EpochResult := do
  let deltaRw ← deltaByKey state.rightStaged.rows
  let changed ← transitions deltaRw state.rightKeyWeight state.leftArr.probe
    fun wasUnmatched => op.signedRow (if wasUnmatched then unmatchedSign else -unmatchedSign)
  let changedOut ← pushNonempty changed (op.makeSemiBatch · schema)
  let arrived ← arrivals state.leftStaged.rows deltaRw state.rightKeyWeight keep op.leftRow
  let arrivedOut ← pushNonempty arrived (op.makeSemiBatch · schema)
  pure ⟨changedOut ++ arrivedOut, deltaRw, none⟩

def semiOutputs (schema : List Field) : Exec EpochResult :=
  op.filterOutputs (fun weight => weight ≠ 0) 1 state schema

def antiOutputs (schema : List Field) : Exec EpochResult :=
  op.filterOutputs (fun weight => weight = 0) (-1) state schema

def hasNullKey (values : Int64Row) : Exec Bool :=
  op.leftKeyCols.anyM fun column =>
    match values[column]? with
    | some value => pure value.isNone
    | none => .error (.panicked "index out of bounds")

/-- Arranged left rows when the NULL or the emptiness status of the right side changed. -/
def nullAwareRevisit (deltaRw : HashMap Bytes Int)
    (oldNull newNull oldEmpty newEmpty : Bool) : Exec (List (Int64Row × Int)) := do
  let parts ← state.leftArr.toPairs.mapM fun pair => do
    let oldMatches := (state.rightKeyWeight.lookup pair.1).getD 0
    let newMatches ← addI64 oldMatches ((deltaRw.lookup pair.1).getD 0)
    let rows ← pair.2.values.mapM fun row => do
      let values ← deserializeRow row.rowBytes op.leftNCols
      let nullKey ← op.hasNullKey values
      let wasVisible := if nullKey then oldEmpty else !oldNull && decide (oldMatches = 0)
      let nowVisible := if nullKey then newEmpty else !newNull && decide (newMatches = 0)
      if wasVisible ≠ nowVisible then do
        let weight ← mulI64 row.weight (nowVisible.toInt - wasVisible.toInt)
        pure [(values, weight)]
      else
        pure []
    pure rows.flatten
  pure parts.flatten

/-- Arranged left rows when neither status changed and no right key is NULL. -/
def nullAwareTransitions (deltaRw : HashMap Bytes Int) : Exec (List (Int64Row × Int)) := do
  let rows ← transitions deltaRw state.rightKeyWeight state.leftArr.probe fun wasUnmatched row => do
    let values ← deserializeRow row.1 op.leftNCols
    let nullKey ← op.hasNullKey values
    if nullKey then
      pure []
    else do
      let weight ← mulI64 (if wasUnmatched then -1 else 1) row.2
      pure [(values, weight)]
  pure rows.flatten

/-- Staged left rows that are visible at the end of the epoch. -/
def nullAwareArrivals (deltaRw : HashMap Bytes Int)
    (newNull newEmpty : Bool) : Exec (List (Int64Row × Int)) := do
  let parts ← state.leftStaged.rows.mapM fun row => do
    let values ← deserializeRow row.1.rowBytes op.leftNCols
    let nullKey ← op.hasNullKey values
    if nullKey && !newEmpty then
      pure []
    else do
      let matchWeight ← addI64 ((state.rightKeyWeight.lookup row.1.joinKey).getD 0)
        ((deltaRw.lookup row.1.joinKey).getD 0)
      if nullKey || (!newNull && decide (matchWeight = 0)) then
        pure [(values, row.2)]
      else
        pure []
  pure parts.flatten

/-- The arranged left rows: all of them when a status changed, those of the changed keys when the
right side holds no NULL key, and none otherwise. -/
def nullAwareArranged (deltaRw : HashMap Bytes Int)
    (oldNull newNull oldEmpty newEmpty : Bool) : Exec (List (Int64Row × Int)) :=
  if oldNull ≠ newNull ∨ oldEmpty ≠ newEmpty then
    op.nullAwareRevisit state deltaRw oldNull newNull oldEmpty newEmpty
  else if oldNull then
    pure []
  else
    op.nullAwareTransitions state deltaRw

/-- The staged left rows: none when the right side ends with a NULL key. -/
def nullAwareArrived (deltaRw : HashMap Bytes Int)
    (newNull newEmpty : Bool) : Exec (List (Int64Row × Int)) :=
  if newNull then pure [] else op.nullAwareArrivals state deltaRw newNull newEmpty

def nullAwareAntiOutputs (schema : List Field) : Exec EpochResult := do
  let deltaRw ← deltaByKey state.rightStaged.rows
  let totalDelta ← sumValues deltaRw
  let newNullWeight ← addI64 state.rightNullWeight state.rightStaged.nullWeight
  let newTotalWeight ← addI64 state.rightTotalWeight totalDelta
  let oldNull := decide (0 < state.rightNullWeight)
  let newNull := decide (0 < newNullWeight)
  let oldEmpty := decide (state.rightTotalWeight = 0)
  let newEmpty := decide (newTotalWeight = 0)
  let arranged ← op.nullAwareArranged state deltaRw oldNull newNull oldEmpty newEmpty
  let arrived ← op.nullAwareArrived state deltaRw newNull newEmpty
  let outputs ← pushNonempty (arranged ++ arrived) (op.makeSemiBatch · schema)
  pure ⟨outputs, deltaRw, none⟩

/-- The dispatch of `process_epoch`. -/
def kindOutputs (schema : List Field) : Exec EpochResult :=
  match op.kind with
  | .left => op.leftOutputs state schema
  | .right => op.rightOutputs state schema
  | .full => op.fullOutputs state schema
  | .semi => op.semiOutputs state schema
  | .anti => op.antiOutputs state schema
  | .nullAwareAnti => op.nullAwareAntiOutputs state schema

/-- After staging: compute the kind's outputs against the old state, commit, concatenate. -/
def finishEpoch (schema : List Field) : Step OuterJoinState (ArrowZSet × OuterJoinState) := do
  let result ← Exec.within state (op.kindOutputs state schema)
  let next ← Exec.within state (op.commitStaged result.deltaRw result.deltaLw state)
  let output ← Exec.within next (ArrowZSet.concatZsets result.outputs schema)
  pure (output, next)

def processEpoch (epoch : ArrowZSet × ArrowZSet) :
    Step OuterJoinState (ArrowZSet × OuterJoinState) := do
  let state ← op.stageLeft state epoch.1
  let state ← op.stageRight state epoch.2
  op.finishEpoch state (outerJoinOutputSchema op.kind epoch.1.fields epoch.2.fields)

end OuterJoinOp

end RockStream
