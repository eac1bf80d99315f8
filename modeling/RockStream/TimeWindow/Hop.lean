import RockStream.TimeWindow.Basic

/-!
Contract: the hopping-window operator (`rockstream-ops/src/time_window.rs`).

Every row is added to each window that contains its event time. A window that is closed at
the start of the epoch is reopened by the first retraction that reaches it, so rows before
and after that retraction are treated differently. What is emitted for a window is the set
of its rows of positive weight.

Owns: `HopWindowOp`, its state, the windows of an event time, and one epoch.

Does not own: persistence and restore, the fill level gauges, and the size of the state.
-/

namespace RockStream

open Lib

structure HopWindowState where
  windows : WindowTable (List Int64)
  /-- What was emitted for each window. -/
  prevOutput : HashMap Int EmittedMap
  watermark : Int
  finalized : HashSet Int
  inputFrontier : Option FreshnessToken

structure HopWindowOp where
  schema : List Field
  nInputCols : Nat
  timeCol : Nat
  windowSizeMs : Int
  slideMs : Int
  lateDataPolicy : Sql.LateDataPolicy

def hopWindowStateLimit : Nat := 100000

namespace HopWindowState

def new : HopWindowState :=
  { windows := ∅, prevOutput := ∅, watermark := -2 ^ 63, finalized := ∅, inputFrontier := none }

def watermarkMs (state : HopWindowState) : Int :=
  currentWatermark state.inputFrontier state.watermark

/-- `total_rows`: the rows of positive weight. -/
def totalRows (state : HopWindowState) : Nat :=
  (state.windows.values.flatMap fun rows => rows.values.filter fun row => 0 < row.2).length

def emitted (state : HopWindowState) (windowId : Int) : EmittedMap :=
  (state.prevOutput.lookup windowId).getD ∅

end HopWindowState

def hopWindowIds (eventTimeMs windowSizeMs slideMs : Int) : Exec (List Int) :=
  if slideMs = 0 then .error (.panicked "attempt to divide by zero")
  else do
    let overlap ← checkI64 (windowSizeMs.tdiv slideMs)
    let index ← floorDiv eventTimeMs slideMs
    let latestStart ← mulI64 index slideMs
    let windowIds ← (List.range overlap.toNat).foldlM
      (fun (windowIds : List Int) (offset : Nat) => do
      let shift ← mulI64 offset slideMs
      let windowId ← subI64 latestStart shift
      if windowId ≤ eventTimeMs then do
        let windowEnd ← addI64 windowId windowSizeMs
        pure (if eventTimeMs < windowEnd then windowIds ++ [windowId] else windowIds)
      else
        pure windowIds) []
    pure (windowIds.insertionSort (· ≤ ·))

structure HopEpoch where
  next : HopWindowState
  dirty : HashSet Int
  reopened : HashSet Int
  liveRows : Nat

/-- The number of live rows after one row changes its weight. -/
def liveRowsAfter (liveRows : Nat) (previous total : Int) : Nat :=
  if previous ≤ 0 ∧ 0 < total then liveRows + 1
  else if 0 < previous ∧ total ≤ 0 then liveRows - 1
  else liveRows

/-- The set of rows of positive weight. -/
def liveValues (rows : RowMap (List Int64)) : EmittedMap :=
  rows.filterMap fun row => if 0 < row.2 then some row.1 else none

/-- The changes from the emitted set of a window to its new set: a row is kept where its key is. -/
def hopChanges (oldEmitted newState : EmittedMap) : List (List Int64 × Int) :=
  EmittedMap.changes (fun found _ => found.isSome) oldEmitted newState

namespace HopWindowOp

def outputSchema (inputSchema : List Field) : List Field :=
  ⟨"window_id", .int64, false⟩ :: inputSchema

def new (inputSchema : List Field) (timeCol : Nat) (windowSizeMs slideMs : Int)
    (lateDataPolicy : Sql.LateDataPolicy) : HopWindowOp :=
  { schema := outputSchema inputSchema, nInputCols := inputSchema.length, timeCol, windowSizeMs,
    slideMs, lateDataPolicy }

variable (op : HopWindowOp)

def timeOf (vals : List Int64) : Int := (vals[op.timeCol]?.getD 0).toInt

def processWindow (epochStartWatermark : Int) (vals : List Int64) (weight : Int)
    (current : HopEpoch) (windowId : Int) : Exec HopEpoch := do
  let windowEnd ← addI64 windowId op.windowSizeMs
  let windowClosed := (decide (windowEnd < epochStartWatermark) ||
    (current.next.finalized.lookup windowId).isSome) && (current.reopened.lookup windowId).isNone
  if windowClosed && decide (0 < weight) && decide (op.lateDataPolicy = .drop) then
    pure current
  else do
    -- A retraction from a closed window reopens it for the rest of the epoch.
    let reopens := windowClosed && decide (¬ 0 < weight)
    let previous := (current.next.windows.window windowId).weightAt (rowKey vals)
    let windows ← current.next.windows.addRow windowId (rowKey vals) vals weight
    let liveRows := liveRowsAfter current.liveRows previous (previous + weight)
    if previous ≤ 0 ∧ 0 < previous + weight ∧ hopWindowStateLimit < liveRows then
      .error (.err (.hopWindowStateOverflow liveRows hopWindowStateLimit))
    else
      pure {
        next := { current.next with
          windows
          finalized := if reopens then current.next.finalized.erase windowId
            else current.next.finalized }
        dirty := current.dirty.insert windowId ()
        reopened := if reopens then current.reopened.insert windowId () else current.reopened
        liveRows }

/-- The body of the row loop. The watermark advances also for a row that is dropped. -/
def processRow (epochStartWatermark : Int) (current : HopEpoch) (row : List Cell × Int) :
    Exec HopEpoch :=
  if row.2 = 0 then .ok current
  else do
    let vals := extractRowVals (row.1.take op.nInputCols)
    let time := op.timeOf vals
    let windowIds ← hopWindowIds time op.windowSizeMs op.slideMs
    let advanced := { current.next with watermark := max current.next.watermark time }
    windowIds.foldlM (op.processWindow epochStartWatermark vals row.2)
      { current with next := advanced }

def emitWindow (current : List (List Int64 × Int) × HopWindowState) (windowId : Int) :
    Exec (List (List Int64 × Int) × HopWindowState) := do
  let state := current.2
  let newState := liveValues (state.windows.window windowId)
  let changes := hopChanges (state.emitted windowId) newState
  let windowEnd ← addI64 windowId op.windowSizeMs
  pure (current.1 ++ changes.map fun row => (Int64.ofInt windowId :: row.1, row.2),
    { state with
      prevOutput := state.prevOutput.insert windowId newState
      finalized := if windowEnd < state.watermarkMs then state.finalized.insert windowId ()
        else state.finalized })

/-- The part of `HopWindowOp::process_epoch` that works on a copy of the state. -/
def computeEpoch (state : HopWindowState) (delta : ArrowZSet) (frontier : Option FreshnessToken) :
    Exec (List (List Int64 × Int) × HopWindowState) := do
  let started := { state with inputFrontier := frontier.or state.inputFrontier }
  let applied ← delta.rows.foldlM (op.processRow started.watermarkMs)
    { next := started, dirty := ∅, reopened := ∅, liveRows := started.totalRows }
  let windows ← applied.next.windows.windowsToEmit applied.next.finalized applied.dirty
    op.windowSizeMs applied.next.watermarkMs
  windows.foldlM op.emitWindow ([], applied.next)

def processEpoch (state : HopWindowState) (delta : ArrowZSet) (frontier : Option FreshnessToken) :
    Step HopWindowState (ArrowZSet × HopWindowState) :=
  if delta.rows.isEmpty && frontier.isNone then do
    let output ← Exec.within state (ArrowZSet.empty op.schema)
    pure (output, state)
  else do
    let (rows, next) ← Exec.within state (op.computeEpoch state delta frontier)
    let output ← Exec.within next (buildValues op.schema rowKey rows)
    pure (output, next)

def handle (state : HopWindowState) :
    WindowEvent → Step HopWindowState (Option ArrowZSet × HopWindowState)
  | .processEpoch delta frontier => do
    let (output, next) ← op.processEpoch state delta frontier
    pure (some output, next)
  | .pushInputFrontier frontier => .ok (none, { state with inputFrontier := some frontier })

end HopWindowOp

end RockStream
