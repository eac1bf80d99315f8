import RockStream.RawRows

/-!
Contract: the DISTINCT, INTERSECT and EXCEPT operators
(`rockstream-ops/src/distinct.rs`).

INTERSECT and EXCEPT have one body: every row changes the weight of its own values on
one side, and the change of the output weight is emitted. They differ in the output
weight only.

Owns: `DistinctOp` with its deletion log and byte counters, `IntersectOp`, `ExceptOp`,
and the row loops of their epochs.

Does not own: persistence and restore of the DISTINCT state, and the fill level gauges.
-/

namespace RockStream

open Lib

abbrev RowWeights := HashMap Bytes (Int × List Int64)

def RowWeights.weightAt (rows : RowWeights) (key : Bytes) : Int :=
  ((rows.lookup key).map Prod.fst).getD 0

def DistinctOp.buildOutput (schema : List Field) (rows : List (List Int64 × Int)) :
    Exec ArrowZSet :=
  buildValues schema rowKey rows

/-! ## DISTINCT -/

structure DistinctState where
  entries : RowWeights
  /-- Deleted keys that are not acknowledged as persisted, with the generation of the deletion. -/
  deleted : HashMap Bytes UInt64
  appendedDeletions : HashMap Bytes UInt64
  deletionGeneration : UInt64
  deletedBytes : Nat
  appendedDeletionBytes : Nat
  stateBytes : Nat
deriving DecidableEq

structure DistinctOp where
  schema : List Field

namespace DistinctState

def new : DistinctState :=
  { entries := ∅, deleted := ∅, appendedDeletions := ∅, deletionGeneration := 0,
    deletedBytes := 0, appendedDeletionBytes := 0, stateBytes := 0 }

/-- Store the new weight of a row; weight zero removes the row and logs the deletion. -/
def store (state : DistinctState) (key : Bytes) (vals : List Int64) (newWeight : Int) :
    DistinctState :=
  let isNew := (state.entries.lookup key).isNone
  let entryBytes := key.length + 8 + vals.length * 8
  if newWeight ≠ 0 then
    { state with
      entries := state.entries.insert key (newWeight, vals)
      stateBytes := if isNew then state.stateBytes + entryBytes else state.stateBytes }
  else if isNew then
    state
  else
    -- `u64` addition wraps in the source as well.
    let generation := state.deletionGeneration + 1
    { state with
      entries := state.entries.erase key
      deletionGeneration := generation
      deleted := state.deleted.insert key generation
      deletedBytes := if (state.deleted.lookup key).isNone
        then state.deletedBytes + (key.length + 8)
        else state.deletedBytes
      stateBytes := state.stateBytes - entryBytes }

end DistinctState

namespace DistinctOp

/-- Zero-crossing emission. -/
def crossing (vals : List Int64) (oldWeight newWeight : Int) : List (List Int64 × Int) :=
  if oldWeight ≤ 0 ∧ 0 < newWeight then [(vals, 1)]
  else if 0 < oldWeight ∧ newWeight ≤ 0 then [(vals, -1)]
  else []

def processRow (current : List (List Int64 × Int) × DistinctState) (row : List Cell × Int) :
    Step DistinctState (List (List Int64 × Int) × DistinctState) :=
  if row.2 = 0 then .ok current
  else do
    let vals := extractRowVals row.1
    let key := rowKey vals
    let oldWeight := current.2.entries.weightAt key
    let newWeight ← Exec.within current.2 (addI64 oldWeight row.2)
    pure (current.1 ++ crossing vals oldWeight newWeight, current.2.store key vals newWeight)

def processDelta (op : DistinctOp) (state : DistinctState) (delta : ArrowZSet) :
    Step DistinctState (ArrowZSet × DistinctState) :=
  if delta.rows.isEmpty then do
    let output ← Exec.within state (ArrowZSet.empty op.schema)
    pure (output, state)
  else do
    let (out, next) ← delta.rows.foldlM processRow ([], state)
    let output ← Exec.within next (buildOutput op.schema out)
    pure (output, next)

end DistinctOp

/-! ## INTERSECT and EXCEPT -/

structure DualArrangement where
  left : RowWeights
  right : RowWeights
deriving DecidableEq

namespace DualArrangement

inductive Side where
  | left
  | right
deriving DecidableEq, Repr

def new : DualArrangement := ⟨∅, ∅⟩

def on (state : DualArrangement) : Side → RowWeights
  | .left => state.left
  | .right => state.right

def withSide (state : DualArrangement) (side : Side) (rows : RowWeights) : DualArrangement :=
  match side with
  | .left => { state with left := rows }
  | .right => { state with right := rows }

/-- `apply`, without the two weights it returns, which no caller reads. -/
def apply (state : DualArrangement) (side : Side) (key : Bytes) (vals : List Int64) (delta : Int) :
    Exec DualArrangement := do
  let newWeight ← addI64 ((state.on side).weightAt key) delta
  pure (state.withSide side
    (if newWeight ≠ 0 then (state.on side).insert key (newWeight, vals)
      else (state.on side).erase key))

variable (weigh : Int → Int → Bool → Int)

/-- The output weight of the row stored under a key. -/
def outWeight (all : Bool) (state : DualArrangement) (key : Bytes) : Int :=
  weigh (state.left.weightAt key) (state.right.weightAt key) all

def processRow (all : Bool) (side : Side) (current : List (List Int64 × Int) × DualArrangement)
    (row : List Cell × Int) : Step DualArrangement (List (List Int64 × Int) × DualArrangement) :=
  if row.2 = 0 then .ok current
  else do
    let vals := extractRowVals row.1
    let key := rowKey vals
    let next ← Exec.within current.2 (current.2.apply side key vals row.2)
    let diff ← Exec.within next
      (subI64 (next.outWeight weigh all key) (current.2.outWeight weigh all key))
    pure (if diff ≠ 0 then current.1 ++ [(vals, diff)] else current.1, next)

def processEpoch (schema : List Field) (all : Bool) (state : DualArrangement)
    (epoch : ArrowZSet × ArrowZSet) : Step DualArrangement (ArrowZSet × DualArrangement) := do
  let afterLeft ← epoch.1.rows.foldlM (processRow weigh all .left) ([], state)
  let (out, next) ← epoch.2.rows.foldlM (processRow weigh all .right) afterLeft
  let output ← Exec.within next (DistinctOp.buildOutput schema out)
  pure (output, next)

end DualArrangement

/-- `if w > 0 { 1 } else { 0 }`. -/
def clampWeight (weight : Int) : Int := if 0 < weight then 1 else 0

def intersectWeight (left right : Int) (all : Bool) : Int :=
  if all then min (max left 0) (max right 0) else min (clampWeight left) (clampWeight right)

/-- `except_weight`: the difference of two weights in `0 ≤ w < 2 ^ 63` cannot overflow. -/
def exceptWeight (left right : Int) (all : Bool) : Int :=
  if all then max (max left 0 - max right 0) 0 else max (clampWeight left - clampWeight right) 0

structure IntersectOp where
  schema : List Field
  all : Bool

def IntersectOp.processEpoch (op : IntersectOp) :
    DualArrangement → ArrowZSet × ArrowZSet → Step DualArrangement (ArrowZSet × DualArrangement) :=
  DualArrangement.processEpoch intersectWeight op.schema op.all

structure ExceptOp where
  schema : List Field
  all : Bool

def ExceptOp.processEpoch (op : ExceptOp) :
    DualArrangement → ArrowZSet × ArrowZSet → Step DualArrangement (ArrowZSet × DualArrangement) :=
  DualArrangement.processEpoch exceptWeight op.schema op.all

end RockStream
