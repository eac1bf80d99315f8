import RockStream.Arrangement

/-!
Contract: the incremental inner equi-join operator (`rockstream-ops/src/join.rs`).

Owns: `JoinOp` and its in-memory epoch path: `process_left_delta`,
`process_right_delta`, `commit_epoch`, `process_epoch`, with the row encoding, the
staged deltas, the dirty sets and the bytes counter they maintain.

Does not own: the storage-backed path (`ensure_arrangement_key_loaded`, `append_state`
and the restore functions) and the amplification counters, which `process_epoch`
drops.
-/

namespace RockStream

open Lib

/-- One side's staged delta for an epoch. -/
structure StagedDelta where
  rows : List (Entry × Int)
  stagedBytes : Nat

def StagedDelta.empty : StagedDelta := ⟨[], 0⟩

def StagedDelta.push (staged : StagedDelta) (entry : Entry) (weight : Int) : StagedDelta :=
  { rows := staged.rows ++ [(entry, weight)]
    stagedBytes :=
      staged.stagedBytes + (entry.joinKey.length + 16 + entry.rowBytes.length + 8) }

/-- What a `JoinOp` is constructed with. -/
structure JoinOp where
  opId : UInt64
  leftKeyCols : List Nat
  rightKeyCols : List Nat
  leftNCols : Nat
  rightNCols : Nat

/-- The mutable part of a `JoinOp`: its `JoinState`, the staged deltas and the rows
changed since the last persist. -/
structure JoinState where
  leftArr : Arrangement
  rightArr : Arrangement
  stateBytes : Nat
  leftStaged : StagedDelta
  rightStaged : StagedDelta
  dirtyLeft : HashSet (Bytes × BitVec 128)
  dirtyRight : HashSet (Bytes × BitVec 128)

def JoinState.new : JoinState :=
  { leftArr := ∅, rightArr := ∅, stateBytes := 0, leftStaged := .empty, rightStaged := .empty,
    dirtyLeft := ∅, dirtyRight := ∅ }

def joinOutputSchemaN (leftNCols rightNCols : Nat) : List Field :=
  (List.range leftNCols).map (fun i => ⟨s!"l_{i}", .int64, false⟩) ++
    (List.range rightNCols).map (fun i => ⟨s!"r_{i}", .int64, false⟩)

namespace JoinOp

variable (op : JoinOp)

/-- `extract_key`: the typed key bytes, or `none` when a component is NULL. -/
def extractKey (cells : List Cell) (keyCols : List Nat) : Exec (Option Bytes) := do
  let capsule ← keyCapsule cells keyCols
  pure (if capsule.containsNull then none else some capsule.typedBytes)

/-- `serialize_row`: the raw values of all columns. The validity bits are not read. -/
def serializeRow (cells : List Cell) : Exec Bytes := do
  let words ← cells.mapM fun cell =>
    match cell.int64? with
    | some value => .ok (Bytes.ofInt64 value)
    | none => .error (.panicked "Int64")
  pure words.flatten

def deserializeRow (bytes : Bytes) (nCols : Nat) : List Int64 :=
  (Bytes.words bytes).take nCols

/-- The entry a row is staged as; `none` for a row whose key contains NULL. -/
def stagedEntry (keyCols : List Nat) (cells : List Cell) : Exec (Option Entry) := do
  match ← extractKey cells keyCols with
  | none => pure none
  | some joinKey => do
    let rowBytes ← serializeRow cells
    pure (some ⟨joinKey, stableRowId op.opId joinKey rowBytes, rowBytes⟩)

/-- One output row: the decoded sides and the product of the weights. -/
def joinRows (left right : List Int64 × Int) : Exec (List Cell × Int) := do
  let weight ← mulI64 left.2 right.2
  pure ((left.1 ++ right.1).map Cell.ofInt64, weight)

def makeOutputBatch (rows : List (List Cell × Int)) : Exec ArrowZSet :=
  ArrowZSet.tryNew (joinOutputSchemaN op.leftNCols op.rightNCols) rows

/-- The row loop of both delta functions: `join` emits a row against the rows the probe
finds, `stage` keeps it for the commit. -/
def processRow (keyCols : List Nat) (probe : Bytes → List (Bytes × Int))
    (join : Bytes × Int → Bytes × Int → Exec (List Cell × Int))
    (stage : JoinState → Entry → Int → JoinState) (current : JoinState × List (List Cell × Int))
    (row : List Cell × Int) : Step JoinState (JoinState × List (List Cell × Int)) := do
  match ← Exec.within current.1 (op.stagedEntry keyCols row.1) with
  | none => pure current
  | some entry => do
    let joined ← Exec.within current.1
      ((probe entry.joinKey).mapM fun other => join (entry.rowBytes, row.2) other)
    pure (stage current.1 entry row.2, current.2 ++ joined)

def processDelta (keyCols : List Nat) (probe : Bytes → List (Bytes × Int))
    (join : Bytes × Int → Bytes × Int → Exec (List Cell × Int))
    (stage : JoinState → Entry → Int → JoinState) (state : JoinState) (delta : ArrowZSet) :
    Step JoinState (ArrowZSet × JoinState) := do
  let (next, out) ← delta.rows.foldlM (op.processRow keyCols probe join stage) (state, [])
  let batch ← Exec.within next (op.makeOutputBatch out)
  pure (batch, next)

def joinBytes (left right : Bytes × Int) : Exec (List Cell × Int) :=
  joinRows (deserializeRow left.1 op.leftNCols, left.2)
    (deserializeRow right.1 op.rightNCols, right.2)

/-- `process_left_delta`: emit `ΔL ⋈ R₀` and stage the left rows. -/
def processLeftDelta (state : JoinState) (delta : ArrowZSet) :
    Step JoinState (ArrowZSet × JoinState) :=
  op.processDelta op.leftKeyCols state.rightArr.probe op.joinBytes
    (fun state entry weight => { state with leftStaged := state.leftStaged.push entry weight })
    state delta

/-- `process_right_delta`: emit `L₀ ⋈ ΔR` and stage the right rows. -/
def processRightDelta (state : JoinState) (delta : ArrowZSet) :
    Step JoinState (ArrowZSet × JoinState) :=
  op.processDelta op.rightKeyCols state.leftArr.probe (fun own other => op.joinBytes other own)
    (fun state entry weight => { state with rightStaged := state.rightStaged.push entry weight })
    state delta

/-- The staged right rows by key, decoded once each. -/
def rightByKey (rows : List (Entry × Int)) : HashMap Bytes (List (List Int64 × Int)) :=
  HashMap.groupBy (fun row => row.1.joinKey)
    (fun row => (deserializeRow row.1.rowBytes op.rightNCols, row.2)) rows

/-- The `ΔL ⋈ ΔR` correction. -/
def correction (state : JoinState) : Exec (List (List Cell × Int)) := do
  let byKey := op.rightByKey state.rightStaged.rows
  let parts ← state.leftStaged.rows.mapM fun row =>
    ((byKey.lookup row.1.joinKey).getD []).mapM
      (joinRows (deserializeRow row.1.rowBytes op.leftNCols, row.2))
  pure parts.flatten

/-- The drains of `commit_epoch`: apply the staged rows, left then right. -/
def applyStaged (state : JoinState) : Exec JoinState := do
  let left ← Arranged.drain ⟨state.leftArr, state.stateBytes, state.dirtyLeft⟩ state.leftStaged.rows
  let right ← Arranged.drain ⟨state.rightArr, left.stateBytes, state.dirtyRight⟩
    state.rightStaged.rows
  pure { leftArr := left.arr, rightArr := right.arr, stateBytes := right.stateBytes,
         leftStaged := .empty, rightStaged := .empty, dirtyLeft := left.dirty,
         dirtyRight := right.dirty }

/-- `commit_epoch`. The output batch is built after the arrangements are updated. A panic
inside the drains poisons the locks, so the state it leaves is never read. -/
def commitEpoch (state : JoinState) : Step JoinState (ArrowZSet × JoinState) := do
  let out ← Exec.within state (op.correction state)
  let next ← Exec.within state (applyStaged state)
  let batch ← Exec.within next (op.makeOutputBatch out)
  pure (batch, next)

def processEpoch (state : JoinState) (epoch : ArrowZSet × ArrowZSet) :
    Step JoinState (ArrowZSet × JoinState) := do
  let (leftOut, state) ← op.processLeftDelta state epoch.1
  let (rightOut, state) ← op.processRightDelta state epoch.2
  let (correction, state) ← op.commitEpoch state
  let output ← Exec.within state (ArrowZSet.concatZsets [leftOut, rightOut, correction]
    (joinOutputSchemaN op.leftNCols op.rightNCols))
  pure (output, state)

end JoinOp

end RockStream
