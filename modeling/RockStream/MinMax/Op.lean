import RockStream.Arrow
import RockStream.Lib.BTreeMap
import RockStream.Lib.HashMap
import RockStream.SortKey

/-!
Contract: the incremental MIN/MAX aggregate (`minmax.rs`).

Each group keeps its values in an ordered map from sort key to weight, so that the
extremum is the first key, and the operator keeps the extremum of every group in a
cache. Rows are applied one at a time; a row that makes a weight negative is refused
with `RS-1017`.

Owns:
- `MinMaxState`, and `applyDelta` with the state that each of its failures leaves;
- `processDelta`.

Does not own: `arrow::compute::cast`, which is a parameter, and persistence.
-/

namespace RockStream

open Lib

inductive MinMaxKind where
  | min
  | max
deriving DecidableEq, Repr

def MinMaxKind.invert (kind : MinMaxKind) : Bool := kind == .max

structure MinMaxState where
  multiset : HashMap Int64 (BTreeMap Bytes Int)
  extremumCache : HashMap Int64 Int64

/-- `arrow::compute::cast` to Int64, by column type: the raw value of each slot of the result. -/
structure MinMaxEnv where
  castInt64 : DataType → Option (Cell → Int64)

namespace MinMaxState

def new : MinMaxState := ⟨∅, ∅⟩

def groupOf (multiset : HashMap Int64 (BTreeMap Bytes Int)) (key : Int64) : BTreeMap Bytes Int :=
  (multiset.lookup key).getD ∅

/-- `true_extremum`: the first key of a group, decoded. -/
def trueExtremum (kind : MinMaxKind) (multiset : HashMap Int64 (BTreeMap Bytes Int)) (key : Int64) :
    Option Int64 :=
  ((multiset.lookup key).bind BTreeMap.firstKey).map fun sortKey =>
    minmaxSortKeyDecode sortKey kind.invert

/-- The multiset after a value has left its group; an empty group leaves with it. -/
def withoutValue (state : MinMaxState) (key : Int64) (sortKey : Bytes) :
    HashMap Int64 (BTreeMap Bytes Int) :=
  if ((groupOf state.multiset key).erase sortKey).isEmpty then state.multiset.erase key
  else state.multiset.insert key ((groupOf state.multiset key).erase sortKey)

/-- What the refusal of a retraction leaves behind: the value is gone from its group. -/
def refused (state : MinMaxState) (key : Int64) (sortKey : Bytes) : MinMaxState where
  multiset := state.withoutValue key sortKey
  extremumCache :=
    if ((groupOf state.multiset key).erase sortKey).isEmpty then state.extremumCache.erase key
    else state.extremumCache

/-- The cache after the multiset has changed at one group. -/
def recached (kind : MinMaxKind) (state : MinMaxState) (key : Int64)
    (multiset : HashMap Int64 (BTreeMap Bytes Int)) : MinMaxState where
  multiset := multiset
  extremumCache :=
    match trueExtremum kind multiset key with
    | some extremum => state.extremumCache.insert key extremum
    | none => state.extremumCache.erase key

/-- The multiset after a value's weight has become `weight ≥ 0`. -/
def reweighted (state : MinMaxState) (key : Int64) (sortKey : Bytes) (weight : Int) :
    HashMap Int64 (BTreeMap Bytes Int) :=
  if weight = 0 then state.withoutValue key sortKey
  else state.multiset.insert key ((groupOf state.multiset key).insert sortKey weight)

/-- `apply_delta`: the old and the new extremum of the row's group. An overflow of the weight
leaves the entry that `or_insert(0)` made. -/
def applyDelta (kind : MinMaxKind) (state : MinMaxState) (key value : Int64) (weight : Int) :
    Step MinMaxState ((Option Int64 × Option Int64) × MinMaxState) :=
  let sortKey := minmaxSortKey value kind.invert
  let stored := (groupOf state.multiset key)[sortKey]?.getD 0
  if ¬ InI64 (stored + weight) then
    .error (.overflow, { state with
      multiset := state.multiset.insert key ((groupOf state.multiset key).insert sortKey stored) })
  else if stored + weight < 0 then
    .error (.err (.minMaxRetractionUnderflow key value), state.refused key sortKey)
  else
    let multiset := state.reweighted key sortKey (stored + weight)
    .ok ((state.extremumCache.lookup key, trueExtremum kind multiset key),
      recached kind state key multiset)

end MinMaxState

structure MinMaxOp where
  opId : UInt64
  kind : MinMaxKind
deriving DecidableEq, Repr

namespace MinMaxOp

def outputSchema : List Field := [⟨"k", .int64, false⟩, ⟨"extremum_v", .int64, false⟩]

def int64Raw (cell : Cell) : Int64 := cell.int64?.getD 0

def valueReader (env : MinMaxEnv) : DataType → Exec (Cell → Int64)
  | .int64 => .ok int64Raw
  | dataType =>
    match env.castInt64 dataType with
    | some cast => .ok cast
    | none => .error (.err (.columnTypeMismatch "Int64" dataType.debug))

/-- The column checks of `process_delta`: how a row's key and value are read. -/
def readers (env : MinMaxEnv) (fields : List Field) : Exec (List Cell → Int64 × Int64) :=
  match fields with
  | keyField :: valueField :: _ =>
    if keyField.dataType ≠ .int64 then .error (.err (.columnTypeMismatch "Int64" "other"))
    else do
      let read ← valueReader env valueField.dataType
      pure fun cells =>
        (int64Raw (cells.getD 0 (Cell.ofInt64? none)), read (cells.getD 1 (Cell.ofInt64? none)))
  | fields => .error (.err (.columnOutOfBounds 1 fields.length))

/-- The output rows of one input row. -/
def emitted (key : Int64) (old new : Option Int64) : List (List Cell × Int) :=
  if old ≠ new then
    (old.toList.map fun extremum => ([.ofInt64 key, .ofInt64 extremum], -1)) ++
      new.toList.map fun extremum => ([.ofInt64 key, .ofInt64 extremum], 1)
  else []

def processRow (op : MinMaxOp) (read : List Cell → Int64 × Int64)
    (current : List (List Cell × Int) × MinMaxState) (row : List Cell × Int) :
    Step MinMaxState (List (List Cell × Int) × MinMaxState) := do
  let applied ← current.2.applyDelta op.kind (read row.1).1 (read row.1).2 row.2
  pure (current.1 ++ emitted (read row.1).1 applied.1.1 applied.1.2, applied.2)

def buildOutput (rows : List (List Cell × Int)) : Exec ArrowZSet :=
  if rows.isEmpty then ArrowZSet.empty outputSchema else ArrowZSet.tryNew outputSchema rows

def processDelta (op : MinMaxOp) (env : MinMaxEnv) (state : MinMaxState) (delta : ArrowZSet) :
    Step MinMaxState (ArrowZSet × MinMaxState) :=
  if delta.rows.isEmpty then do
    let output ← (ArrowZSet.empty outputSchema).within state
    pure (output, state)
  else do
    let read ← (readers env delta.fields).within state
    let looped ← delta.rows.foldlM (op.processRow read) ([], state)
    let output ← (buildOutput looped.1).within looped.2
    pure (output, looped.2)

end MinMaxOp

end RockStream
