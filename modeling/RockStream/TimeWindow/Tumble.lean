import RockStream.TimeWindow.Basic

/-!
Contract: the tumbling-window operator (`rockstream-ops/src/time_window.rs`).

A batch is applied row by row to the windows of the state; then the changed windows, and
those that the watermark has just passed, are compared with what was emitted for them.
The watermark that decides about late rows is read once, at the start of the epoch.

Owns: `TumbleWindowOp`, its state with the rows routed to the side channel, and one epoch.

Does not own: persistence and restore, the fill level gauges, and the size of the state.
-/

namespace RockStream

open Lib

structure TumbleWindowState where
  windows : WindowTable Int64Row
  /-- What was emitted for each window. -/
  prevOutput : WindowTable Int64Row
  watermark : Int
  finalized : HashSet Int
  inputFrontier : Option FreshnessToken
  /-- The rows routed to the side channel, which the operator keeps beside its state. -/
  lateRouteRows : List (List Int64)
deriving DecidableEq

structure TumbleWindowOp where
  schema : List Field
  nInputCols : Nat
  timeCol : Nat
  windowSizeMs : Int
  lateDataPolicy : Sql.LateDataPolicy

namespace TumbleWindowState

/-- `TumbleWindowState::new`; the watermark starts at `i64::MIN`. -/
def new : TumbleWindowState :=
  { windows := ∅, prevOutput := ∅, watermark := -2 ^ 63, finalized := ∅, inputFrontier := none,
    lateRouteRows := [] }

def watermarkMs (state : TumbleWindowState) : Int :=
  currentWatermark state.inputFrontier state.watermark

end TumbleWindowState

def tumbleWindowLateRouteLimit : Nat := 100000

def extractTumbleRow (cells : List Cell) : Exec Int64Row :=
  cells.mapM fun cell =>
    match cell.int64? with
    | some value => .ok (if cell.valid then some value else none)
    | none => .error (.panicked "unwrap on None")

/-- `encode_tumble_row`: the positions of the NULLs follow the values. -/
def encodeTumbleRow (vals : Int64Row) : Bytes :=
  rowKey (vals.map fun value => value.getD 0) ++
    vals.zipIdx.flatMap fun entry => if entry.1.isNone then Bytes.beBytes 8 entry.2 else []

/-- The part of the row loop after the late policy: advance the watermark, add the weight. -/
def TumbleWindowState.addRow (state : TumbleWindowState) (windowId time : Int) (vals : Int64Row)
    (weight : Int) : Exec TumbleWindowState := do
  let windows ← state.windows.addRow windowId (encodeTumbleRow vals) vals weight
  pure { state with watermark := max state.watermark time, windows }

def buildTumbleOutput (schema : List Field) (rows : List (Int64Row × Int)) : Exec ArrowZSet :=
  if rows.any fun row => row.1.length < schema.length then .error (.panicked "index out of bounds")
  else ArrowZSet.tryNew schema
    (rows.map fun row => (Int64Row.cells (row.1.take schema.length), row.2))

def tumbleChanges (oldEmitted newState : RowMap Int64Row) : Exec (List (Int64Row × Int)) := do
  let changed ← oldEmitted.toPairs.mapM fun entry => do
    let diff ← subI64 (((newState.lookup entry.1).map Prod.snd).getD 0) entry.2.2
    pure (if diff ≠ 0 then [(entry.2.1, diff)] else [])
  let inserted := newState.toPairs.flatMap fun entry =>
    if (oldEmitted.lookup entry.1).isNone then [entry.2] else []
  pure (changed.flatten ++ inserted)

namespace TumbleWindowOp

def outputSchema (inputSchema : List Field) : List Field :=
  ⟨"window_id", .int64, false⟩ :: inputSchema

def new (inputSchema : List Field) (timeCol : Nat) (windowSizeMs : Int)
    (lateDataPolicy : Sql.LateDataPolicy) : TumbleWindowOp :=
  { schema := outputSchema inputSchema, nInputCols := inputSchema.length, timeCol, windowSizeMs,
    lateDataPolicy }

variable (op : TumbleWindowOp)

/-- `floor_div(time, window_size_ms) * window_size_ms`. -/
def windowOf (time : Int) : Exec Int := do
  let index ← floorDiv time op.windowSizeMs
  mulI64 index op.windowSizeMs

/-- The event time of a row; NULL is read as zero. -/
def eventTime (vals : Int64Row) : Exec Int :=
  if op.timeCol < op.nInputCols then
    match vals[op.timeCol]? with
    | some value => .ok (value.getD 0).toInt
    | none => .error (.panicked "index out of bounds")
  else
    .ok 0

/-- The windows that a retraction of the batch admits corrections to. -/
def correctedWindows (rows : List (List Cell × Int)) : Exec (HashSet Int) :=
  (rows.filter fun row => row.2 < 0).foldlM (fun corrected row => do
    let vals ← extractTumbleRow row.1
    let windowId ← op.windowOf ((vals[op.timeCol]?).join.getD 0).toInt
    pure (corrected.insert windowId ())) ∅

/-- Under `RouteToSink` a late row is copied to the side channel; NULLs are copied as zeros. -/
def route (late : Bool) (state : TumbleWindowState) (vals : Int64Row) :
    Step TumbleWindowState TumbleWindowState :=
  match late, op.lateDataPolicy with
  | true, .routeToSink _ =>
    if tumbleWindowLateRouteLimit ≤ state.lateRouteRows.length then
      .error (.err (.lateRouteOverflow state.lateRouteRows.length tumbleWindowLateRouteLimit),
        state)
    else
      .ok { state with
        lateRouteRows := state.lateRouteRows ++ [vals.map fun value => value.getD 0] }
  | _, _ => .ok state

/-- The body of the row loop, with the windows it has changed. -/
def processRow (epochStartWatermark : Int) (corrected : HashSet Int)
    (current : TumbleWindowState × HashSet Int) (row : List Cell × Int) :
    Step TumbleWindowState (TumbleWindowState × HashSet Int) :=
  if row.2 = 0 then .ok current
  else do
    let vals ← Exec.within current.1 (extractTumbleRow row.1)
    let time ← Exec.within current.1 (op.eventTime vals)
    let windowId ← Exec.within current.1 (op.windowOf time)
    let windowEnd ← Exec.within current.1 (addI64 windowId op.windowSizeMs)
    let windowClosed := (decide (windowEnd < epochStartWatermark) ||
      (current.1.finalized.lookup windowId).isSome) && (corrected.lookup windowId).isNone
    let late := windowClosed && decide (0 < row.2)
    let state ← op.route late current.1 vals
    if late && decide (op.lateDataPolicy = .drop) then
      .ok (state, current.2)
    else do
      let next ← Exec.within state (state.addRow windowId time vals row.2)
      pure (next, current.2.insert windowId ())

def windowsToEmit (state : TumbleWindowState) (dirty : HashSet Int) : Exec (List Int) :=
  state.windows.windowsToEmit state.finalized dirty op.windowSizeMs state.watermarkMs

def emitWindow (current : List (Int64Row × Int) × TumbleWindowState) (windowId : Int) :
    Exec (List (Int64Row × Int) × TumbleWindowState) := do
  let state := current.2
  let newState := (state.windows.window windowId).positiveRows
  let changes ← tumbleChanges (state.prevOutput.window windowId) newState
  let windowEnd ← addI64 windowId op.windowSizeMs
  pure (current.1 ++ changes.map fun row => (some (Int64.ofInt windowId) :: row.1, row.2),
    { state with
      prevOutput := state.prevOutput.insert windowId newState
      finalized := if windowEnd < state.watermarkMs then state.finalized.insert windowId ()
        else state.finalized })

def processEpoch (state : TumbleWindowState) (delta : ArrowZSet)
    (frontier : Option FreshnessToken) : Step TumbleWindowState (ArrowZSet × TumbleWindowState) :=
  if delta.rows.isEmpty && frontier.isNone then do
    let output ← Exec.within state (ArrowZSet.empty op.schema)
    pure (output, state)
  else do
    let started := { state with inputFrontier := frontier.or state.inputFrontier }
    let corrected ← Exec.within started (op.correctedWindows delta.rows)
    let (applied, dirty) ← delta.rows.foldlM
      (op.processRow started.watermarkMs corrected) (started, ∅)
    let windows ← Exec.within applied (op.windowsToEmit applied dirty)
    let (rows, next) ← Exec.within applied (windows.foldlM op.emitWindow ([], applied))
    let output ← Exec.within next (buildTumbleOutput op.schema rows)
    pure (output, next)

def handle (state : TumbleWindowState) :
    WindowEvent → Step TumbleWindowState (Option ArrowZSet × TumbleWindowState)
  | .processEpoch delta frontier => do
    let (output, next) ← op.processEpoch state delta frontier
    pure (some output, next)
  | .pushInputFrontier frontier => .ok (none, { state with inputFrontier := some frontier })

end TumbleWindowOp

end RockStream
