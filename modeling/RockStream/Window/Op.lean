import RockStream.RawRows
import RockStream.SortKey

/-!
Contract: the window operator (`rockstream-ops/src/window.rs`).

Owns:
- `WindowExpr`, and `evalWindowBatch`, the window functions over one sorted partition;
- `WindowOp` and `process_epoch`: the arrangement with its accumulated weights, the
  recomputation of every affected partition, the output cache with its recorded
  deletions, and the output builder;
- `IterationOrder`, what an epoch sees of the order of the hash maps. Rows that tie
  under the order key stand in that order, since the sort is stable.

Does not own: the persisted state and its restore, the metrics, and the list of
oversized partitions.
-/

namespace RockStream

open Lib

inductive WindowFunc where
  | rowNumber
  | rank
  | denseRank
  | ntile (buckets : Nat)
  | lag (offset : Nat)
  | lead (offset : Nat)
  | slidingSum (frameRows valueCol : Nat)
  | slidingAvg (frameRows valueCol : Nat)
deriving DecidableEq, Repr

/-- A window function expression; columns are indices into the input row. -/
structure WindowExpr where
  func : WindowFunc
  partitionBy : List Nat
  orderBy : List Nat
deriving DecidableEq, Repr

/-! ## Row helpers -/

def extractVals (cells : List Cell) (nCols : Nat) : List Int64 :=
  extractRowVals (cells.take nCols)

/-- `window_sort_key`: the ascending order key. -/
def windowSortKey (value : Int64) : Bytes := minmaxSortKey value false

/-- `encode_order_cols`; `encode_cols` is `rowKey`. -/
def encodeOrderCols (vals : List Int64) : Bytes := vals.flatMap windowSortKey

def rowHash (vals : List Int64) : RowId := fnvPair (rowKey vals)

/-- An output row: its values and, per column, whether the value is NULL. -/
abbrev WindowRow := List Int64 × List Bool

/-- Eight-byte words, the last one filled up with zeros. -/
def paddedWords (bytes : Bytes) : List Int64 :=
  Bytes.words (bytes ++ List.replicate ((8 - bytes.length % 8) % 8) 0)

def outputRowHash (row : WindowRow) : RowId :=
  rowHash (paddedWords ((row.1.zip row.2).flatMap fun column =>
    Bytes.ofInt64 column.1 ++ [if column.2 then 1 else 0]))

/-- A column of an input row, or zero where the input has no such column. -/
def inputColumn (nInputCols : Nat) (vals : List Int64) (col : Nat) : Exec Int64 :=
  if col < nInputCols then
    match vals[col]? with
    | some value => .ok value
    | none => .error (.panicked "index out of bounds")
  else .ok 0

/-! ## Window function evaluation -/

/-- The loop of `RANK`: a row that differs from the one before it takes its position as rank. -/
def rankLoop : Option Int64 → Nat → Nat → List Int64 → List Nat
  | _, _, _, [] => []
  | previous, i, rank, value :: rest =>
    let rank := if previous.isSome ∧ previous ≠ some value then i + 1 else rank
    rank :: rankLoop (some value) (i + 1) rank rest

/-- The loop of `DENSE_RANK`: a row that differs from the one before it takes the next rank. -/
def denseLoop : Option Int64 → Nat → List Int64 → List Nat
  | _, _, [] => []
  | previous, dense, value :: rest =>
    let dense := if previous.isSome ∧ previous ≠ some value then dense + 1 else dense
    dense :: denseLoop (some value) dense rest

/-- The counters count rows of a `Vec`, which an `i64` holds. -/
def counters (values : List Nat) : List (Option Int64) :=
  values.map fun value => some (Int64.ofNat value)

section

variable (rows : List (List Int64))

def columnAt (nInputCols position col : Nat) : Exec Int64 :=
  match rows[position]? with
  | some vals => inputColumn nInputCols vals col
  | none => .error (.panicked "index out of bounds")

def lagAt (nInputCols offset col i : Nat) : Exec (Option Int64) :=
  if offset ≤ i then do
    let value ← columnAt rows nInputCols (i - offset) col
    pure (some value)
  else .ok none

def leadAt (nInputCols offset col i : Nat) : Exec (Option Int64) := do
  let source ← addUsize i offset
  if source < rows.length then do
    let value ← columnAt rows nInputCols source col
    pure (some value)
  else pure none

def frameStart (frameRows i : Nat) : Nat :=
  if frameRows ≤ i + 1 then i + 1 - frameRows else 0

def frameSum (nInputCols frameRows col i : Nat) : Exec Int :=
  (List.range' (frameStart frameRows i) (i + 1 - frameStart frameRows i)).foldlM
    (fun sum position => do
      let value ← columnAt rows nInputCols position col
      addI64 sum value.toInt) 0

def slidingSumAt (nInputCols frameRows col i : Nat) : Exec (Option Int64) := do
  let sum ← frameSum rows nInputCols frameRows col i
  pure (some (Int64.ofInt sum))

/-- `AVG` over the trailing frame at row `i`; the quotient is truncated. -/
def slidingAvgAt (nInputCols frameRows col i : Nat) : Exec (Option Int64) := do
  let before ← subUsize i (frameStart frameRows i)
  let sum ← frameSum rows nInputCols frameRows col i
  pure (some (Int64.ofInt (sum.tdiv (before + 1 : Nat))))

/-- The first ORDER BY column, or the first column. -/
def WindowExpr.orderCol (expr : WindowExpr) : Nat := expr.orderBy.head?.getD 0

/-- One window expression over the rows of a sorted partition. -/
def evalWindowExpr (nInputCols : Nat) (expr : WindowExpr) : Exec (List (Option Int64)) := do
  let orderVals ← rows.mapM (inputColumn nInputCols · expr.orderCol)
  let each (value : Nat → Exec (Option Int64)) := (List.range rows.length).mapM value
  match expr.func with
  | .rowNumber => pure (counters ((List.range rows.length).map (· + 1)))
  | .rank => pure (counters (rankLoop none 0 1 orderVals))
  | .denseRank => pure (counters (denseLoop none 1 orderVals))
  | .lag offset => each (lagAt rows nInputCols offset expr.orderCol)
  | .lead offset => each (leadAt rows nInputCols offset expr.orderCol)
  | .slidingSum frameRows valueCol => each (slidingSumAt rows nInputCols frameRows valueCol)
  | .slidingAvg frameRows valueCol => each (slidingAvgAt rows nInputCols frameRows valueCol)
  | .ntile _ => .error (.err (.unimplemented "NTILE window function is not supported" 1016))

end

/-- `eval_window_batch`: one output column per expression. The order key of a row is not read. -/
def evalWindowBatch (sortedRows : List (Bytes × List Int64)) (windowExprs : List WindowExpr)
    (nInputCols : Nat) : Exec (List (List (Option Int64))) :=
  windowExprs.mapM (evalWindowExpr (sortedRows.map Prod.snd) nInputCols)

/-! ## State -/

/-- An arrangement entry. A negative weight is a row retracted before it was inserted. -/
structure WindowEntry where
  orderKey : Bytes
  inputVals : List Int64
  weight : Int
deriving DecidableEq

abbrev OutputCache := HashMap RowId WindowRow

structure WindowState where
  arrangement : HashMap Bytes (HashMap RowId WindowEntry)
  prevOutput : HashMap Bytes OutputCache
  deletedOutput : HashMap (Bytes × RowId) UInt64
  appendedDeletions : HashMap (Bytes × RowId) UInt64
  deletionGeneration : UInt64
deriving DecidableEq

def WindowState.new : WindowState := ⟨∅, ∅, ∅, ∅, 0⟩

/-- The order in which one epoch iterates the affected partitions and the rows of a partition. -/
structure IterationOrder where
  partitions : List Bytes → List Bytes
  partitions_perm : ∀ keys, (partitions keys).Perm keys
  rows : List WindowEntry → List WindowEntry
  rows_perm : ∀ entries, (rows entries).Perm entries

/-- The order of the representation. -/
def IterationOrder.stored : IterationOrder := ⟨id, .refl, id, .refl⟩

structure WindowOp where
  /-- Input columns, then one column per window expression. -/
  schema : List Field
  windowExprs : List WindowExpr

namespace WindowOp

variable (op : WindowOp)

def nInputCols : Nat := op.schema.length - op.windowExprs.length

/-- The columns of the first window expression; the other expressions are not read. -/
def keyVals (columns : WindowExpr → List Nat) (vals : List Int64) : Exec (List Int64) :=
  match op.windowExprs.head? with
  | some expr => (columns expr).mapM (inputColumn op.nInputCols vals)
  | none => .ok []

def partitionKeyVals (vals : List Int64) : Exec (List Int64) :=
  op.keyVals WindowExpr.partitionBy vals

def orderKeyVals (vals : List Int64) : Exec (List Int64) :=
  op.keyVals WindowExpr.orderBy vals

/-! ## Epochs -/

def partitionKey (vals : List Int64) : Exec Bytes := do
  let columns ← op.partitionKeyVals vals
  pure (rowKey columns)

section

variable (arrangement : HashMap Bytes (HashMap RowId WindowEntry))

def find (partKey : Bytes) (rowId : RowId) : Option WindowEntry :=
  ((arrangement.lookup partKey).getD ∅).lookup rowId

def store (partKey : Bytes) (rowId : RowId)
    (entry : WindowEntry) : HashMap Bytes (HashMap RowId WindowEntry) :=
  arrangement.insert partKey (((arrangement.lookup partKey).getD ∅).insert rowId entry)

/-- Accumulate the weight of one row. Entries of weight zero stay. -/
def applyRow (row : List Cell × Int) : Exec (HashMap Bytes (HashMap RowId WindowEntry)) :=
  if row.2 = 0 then .ok arrangement
  else do
    let vals := extractVals row.1 op.nInputCols
    let partKey ← op.partitionKey vals
    let order ← op.orderKeyVals vals
    let entry := (find arrangement partKey (rowHash vals)).getD ⟨encodeOrderCols order, vals, 0⟩
    let total ← addI64 entry.weight row.2
    pure (store arrangement partKey (rowHash vals) { entry with weight := total })

end

/-- The rows of a partition with positive weight, each once, with their order keys. -/
def presentRows (state : WindowState) (order : IterationOrder) (partKey : Bytes) :
    List (Bytes × List Int64) :=
  ((order.rows (HashMap.values ((state.arrangement.lookup partKey).getD ∅))).filter
      fun entry => 0 < entry.weight).map fun entry => (entry.orderKey, entry.inputVals)

/-- The present rows in the order of their keys; the sort is stable. -/
def rowsInPart (state : WindowState) (order : IterationOrder) (partKey : Bytes) :
    List (Bytes × List Int64) :=
  (presentRows state order partKey).insertionSort fun left right => left.1 ≤ right.1

def recordDeletions (state : WindowState) (partKey : Bytes) (hashes : List RowId) : WindowState :=
  hashes.foldl (fun state hash =>
    { state with
      deletionGeneration := state.deletionGeneration + 1
      deletedOutput := state.deletedOutput.insert (partKey, hash) (state.deletionGeneration + 1) })
    state

/-- The output row at a position: the input values, then one result per expression. -/
def outputRow (vals : List Int64) (results : List (Option Int64)) : WindowRow :=
  (vals ++ results.map fun result => result.getD 0,
    List.replicate op.nInputCols false ++ results.map Option.isNone)

/-- The results of one row across the columns. -/
def resultsAt (columns : List (List (Option Int64))) (position : Nat) :
    Exec (List (Option Int64)) :=
  columns.mapM fun column =>
    match column[position]? with
    | some result => .ok result
    | none => .error (.panicked "index out of bounds")

def evalPartition (sortedRows : List (Bytes × List Int64)) : Exec (List WindowRow) := do
  let columns ← evalWindowBatch sortedRows op.windowExprs op.nInputCols
  sortedRows.zipIdx.mapM fun row => do
    let results ← resultsAt columns row.2
    pure (op.outputRow row.1.2 results)

def cacheOf (rows : List WindowRow) : OutputCache :=
  rows.foldl (fun cache row => cache.insert (outputRowHash row) row) ∅

/-- Recompute one affected partition: retract what it showed, evaluate it, show the result. An
error of the evaluation leaves the deletions recorded and the cache as it was. -/
def refreshPartition (order : IterationOrder) (current : List (WindowRow × Int) × WindowState)
    (partKey : Bytes) : Step WindowState (List (WindowRow × Int) × WindowState) :=
  let rows := rowsInPart current.2 order partKey
  let previous := (current.2.prevOutput.lookup partKey).getD ∅
  let retracted := previous.values.map fun row => (row, (-1 : Int))
  let state := recordDeletions current.2 partKey previous.keys
  if rows.isEmpty then
    .ok (current.1 ++ retracted, { state with prevOutput := state.prevOutput.erase partKey })
  else do
    let shown ← Exec.within state (op.evalPartition rows)
    pure (current.1 ++ retracted ++ shown.map fun row => (row, (1 : Int)),
      { state with prevOutput := state.prevOutput.insert partKey (cacheOf shown) })

/-- The rows an epoch hands to the output builder. A panic poisons the lock around the state, so
that the state it leaves is not read again. -/
def computeEpoch (state : WindowState) (epoch : ArrowZSet × IterationOrder) :
    Step WindowState (List (WindowRow × Int) × WindowState) := do
  let keys ← Exec.within state
    (epoch.1.rows.mapM fun row => op.partitionKey (extractVals row.1 op.nInputCols))
  let arrangement ← Exec.within state (epoch.1.rows.foldlM op.applyRow state.arrangement)
  (epoch.2.partitions keys.dedup).foldlM (op.refreshPartition epoch.2)
    ([], { state with arrangement := arrangement })

/-! ## Output builder -/

/-- The slot of an output value. A `UInt64` column has no NULL: the value is zero there. -/
def outputCell (field : Field) (value : Int64) (isNull : Bool) : Cell :=
  if field.dataType = .other "UInt64" then
    ⟨.other "UInt64" (Bytes.ofInt64 (if isNull then 0 else value)), true⟩
  else Cell.ofInt64? (if isNull then none else some value)

/-- The slots of an output row; columns beyond the schema are dropped. -/
def outputCells (schema : List Field) (row : WindowRow) : List Cell :=
  (schema.zip (row.1.zip row.2)).map fun column => outputCell column.1 column.2.1 column.2.2

/-- The column types the builder knows. -/
def checkOutputType (field : Field) : Exec Unit :=
  if field.dataType = .int64 ∨ field.dataType = .other "UInt64" then .ok ()
  else
    let dataType := field.dataType.debug
    .error (.err (.unimplemented s!"WindowOp output type {dataType}" 1014))

def buildOutput (rows : List (WindowRow × Int)) : Exec ArrowZSet :=
  if rows.isEmpty then ArrowZSet.empty op.schema
  else do
    let kept ← consolidate outputRowHash rows
    if kept.isEmpty then ArrowZSet.empty op.schema
    else do
      op.schema.forM checkOutputType
      ArrowZSet.tryNew op.schema (kept.map fun row => (outputCells op.schema row.1, row.2))

/-- `WindowOp::process_epoch`. Without rows nothing is computed, and the builder returns the empty
batch. -/
def processEpoch (state : WindowState) (epoch : ArrowZSet × IterationOrder) :
    Step WindowState (ArrowZSet × WindowState) := do
  let computed ← op.computeEpoch state epoch
  let output ← Exec.within computed.2 (op.buildOutput computed.1)
  pure (output, computed.2)

end WindowOp

end RockStream
