import RockStream.TimeWindow.Basic

/-!
Contract: the session-window operator (`rockstream-ops/src/time_window.rs`).

Rows are partitioned by all columns but the event time. An epoch recomputes the sessions of
every partition it changes from the rows of positive weight, and emits the difference to the
sessions emitted before.

Owns: `SessionWindowOp`, its state, the derivation of sessions, and one epoch.

Does not own: persistence and restore with the acknowledgement of deletions, the fill level
gauges, and the size of the state.
-/

namespace RockStream

open Lib

structure SessionPartitionState where
  rows : RowMap (List Int64)
  prevOutput : EmittedMap
  liveSessionCount : Nat

def SessionPartitionState.default : SessionPartitionState :=
  { rows := ∅, prevOutput := ∅, liveSessionCount := 0 }

structure SessionWindowState where
  partitions : HashMap Bytes SessionPartitionState
  watermark : Int
  inputFrontier : Option FreshnessToken
  /-- The event time and key of every row that was deleted, with the generation of its deletion. -/
  deleted : HashMap (Int × Bytes) UInt64
  deletionGeneration : UInt64

structure SessionWindowOp where
  schema : List Field
  nInputCols : Nat
  timeCol : Nat
  gapMs : Int
  lateDataPolicy : Sql.LateDataPolicy

def sessionWindowStateLimit : Nat := 100000

namespace SessionWindowState

def new : SessionWindowState :=
  { partitions := ∅, watermark := -2 ^ 63, inputFrontier := none, deleted := ∅,
    deletionGeneration := 0 }

/-- The partition of a key; a partition without entry is empty. -/
def partition (state : SessionWindowState) (partitionKey : Bytes) : SessionPartitionState :=
  (state.partitions.lookup partitionKey).getD .default

def totalSessions (state : SessionWindowState) : Nat :=
  (state.partitions.values.map SessionPartitionState.liveSessionCount).sum

end SessionWindowState

/-- `encode_partition_key`: all columns but the event time. -/
def encodePartitionKey (vals : List Int64) (timeCol : Nat) : Bytes := rowKey (vals.eraseIdx timeCol)

def sessionTime (timeCol : Nat) (vals : List Int64) : Int := (vals[timeCol]?.getD 0).toInt

/-- The sort key of `derive_sessions`: the event time, then the row. -/
def sessionOrder (timeCol : Nat) (vals : List Int64) : Int ×ₗ List Int :=
  toLex (sessionTime timeCol vals, vals.map Int64.toInt)

def saturatingAdd (left right : Int) : Int := max (-2 ^ 63) (min (2 ^ 63 - 1) (left + right))

/-- The loop of `derive_sessions` over the sorted rows, with the open session. -/
def sessionLoop (timeCol : Nat) (gapMs : Int) :
    Int → Int → List (List Int64) → List (List Int64) → List (Int × Int × List Int64)
  | currentStart, currentEnd, currentRows, [] =>
    currentRows.map fun row => (currentStart, currentEnd, row)
  | currentStart, currentEnd, currentRows, row :: rest =>
    let time := sessionTime timeCol row
    if time ≤ saturatingAdd currentEnd gapMs then
      sessionLoop timeCol gapMs currentStart (max currentEnd time) (currentRows ++ [row]) rest
    else
      currentRows.map (fun row => (currentStart, currentEnd, row)) ++
        sessionLoop timeCol gapMs time time [row] rest

def deriveSessions (rows : List (List Int64)) (timeCol : Nat) (gapMs : Int) :
    List (Int × Int × List Int64) :=
  match rows.insertionSort fun left right =>
      sessionOrder timeCol left ≤ sessionOrder timeCol right with
  | [] => []
  | row :: rest =>
    sessionLoop timeCol gapMs (sessionTime timeCol row) (sessionTime timeCol row) [row] rest

/-- A row behind the start and the end of its session. -/
def sessionTag (session : Int × Int × List Int64) : List Int64 :=
  Int64.ofInt session.1 :: Int64.ofInt session.2.1 :: session.2.2

namespace SessionWindowOp

def outputSchema (inputSchema : List Field) : List Field :=
  ⟨"session_start", .int64, false⟩ :: ⟨"session_end", .int64, false⟩ :: inputSchema

def new (inputSchema : List Field) (timeCol : Nat) (gapMs : Int)
    (lateDataPolicy : Sql.LateDataPolicy) : SessionWindowOp :=
  { schema := outputSchema inputSchema, nInputCols := inputSchema.length, timeCol, gapMs,
    lateDataPolicy }

variable (op : SessionWindowOp)

/-- The body of the row loop. Only a frontier makes a row late, never the operator's own clock. -/
def processRow (current : SessionWindowState × HashSet Bytes) (row : List Cell × Int) :
    Exec (SessionWindowState × HashSet Bytes) :=
  if row.2 = 0 then .ok current
  else
    let state := current.1
    let vals := extractRowVals (row.1.take op.nInputCols)
    let time := sessionTime op.timeCol vals
    if decide (0 < row.2) && decide (time < currentWatermark state.inputFrontier (-2 ^ 63)) &&
        decide (op.lateDataPolicy = .drop) then
      .ok current
    else do
      let partitionKey := encodePartitionKey vals op.timeCol
      let partition := state.partition partitionKey
      let rows ← partition.rows.addRow (rowKey vals) vals row.2
      let emptied := rows.weightAt (rowKey vals) = 0
      let generation := if emptied then state.deletionGeneration + 1 else state.deletionGeneration
      pure ({ state with
          partitions := state.partitions.insert partitionKey
            { partition with rows := if emptied then rows.erase (rowKey vals) else rows }
          watermark := max state.watermark time
          deleted := if emptied then state.deleted.insert (time, rowKey vals) generation
            else state.deleted
          deletionGeneration := generation },
        current.2.insert partitionKey ())

/-- The sessions of the rows of positive weight of a partition. -/
def sessionsOf (rows : RowMap (List Int64)) : List (Int × Int × List Int64) :=
  deriveSessions ((rows.values.filter fun row => 0 < row.2).map Prod.fst) op.timeCol op.gapMs

def newOutput (sessions : List (Int × Int × List Int64)) : EmittedMap :=
  sessions.foldl (fun output session => output.insert (rowKey session.2.2) (sessionTag session)) ∅

def emitPartition (current : (List (List Int64 × Int) × Nat) × SessionWindowState)
    (partitionKey : Bytes) : Exec ((List (List Int64 × Int) × Nat) × SessionWindowState) :=
  let state := current.2
  let partition := state.partition partitionKey
  let sessions := op.sessionsOf partition.rows
  let sessionCount := (sessions.map fun session => (session.1, session.2.1)).dedup.length
  let totalSessions := current.1.2 - partition.liveSessionCount + sessionCount
  if sessionWindowStateLimit < totalSessions then
    .error (.err (.sessionWindowStateOverflow totalSessions sessionWindowStateLimit))
  else
    let output := newOutput sessions
    -- A row is kept where the same tagged row was emitted.
    let changes := EmittedMap.changes (fun found vals => found = some vals) partition.prevOutput
      output
    .ok ((current.1.1 ++ changes, totalSessions),
      { state with
        partitions := state.partitions.insert partitionKey
          { partition with prevOutput := output, liveSessionCount := sessionCount } })

/-- The part of `SessionWindowOp::process_epoch` that works on a copy of the state. -/
def computeEpoch (state : SessionWindowState) (delta : ArrowZSet)
    (frontier : Option FreshnessToken) : Exec (List (List Int64 × Int) × SessionWindowState) := do
  let started := { state with inputFrontier := frontier.or state.inputFrontier }
  let applied ← delta.rows.foldlM op.processRow (started, ∅)
  let emitted ← applied.2.keys.foldlM op.emitPartition (([], applied.1.totalSessions), applied.1)
  pure (emitted.1.1, emitted.2)

def processEpoch (state : SessionWindowState) (delta : ArrowZSet)
    (frontier : Option FreshnessToken) :
    Step SessionWindowState (ArrowZSet × SessionWindowState) :=
  if delta.rows.isEmpty && frontier.isNone then do
    let output ← Exec.within state (ArrowZSet.empty op.schema)
    pure (output, state)
  else do
    let (rows, next) ← Exec.within state (op.computeEpoch state delta frontier)
    let output ← Exec.within next (buildValues op.schema rowKey rows)
    pure (output, next)

def handle (state : SessionWindowState) :
    WindowEvent → Step SessionWindowState (Option ArrowZSet × SessionWindowState)
  | .processEpoch delta frontier => do
    let (output, next) ← op.processEpoch state delta frontier
    pure (some output, next)
  | .pushInputFrontier frontier => .ok (none, { state with inputFrontier := some frontier })

end SessionWindowOp

end RockStream
