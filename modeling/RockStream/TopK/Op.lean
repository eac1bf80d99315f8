import RockStream.RawRows
import RockStream.Storage
import RockStream.Lib.Ranking

/-!
Contract: the Top-K operator (`rockstream-ops/src/topk.rs`).

Owns: `TopKOp` and `process_epoch`: the staged partitions, the buffer with its hard
limit, debts, the spill to the attached store and its read back, the selection, and the
publication of an epoch, which happens only when nothing failed.

Does not own: the persisted checkpoint and its restore, and the metrics.
-/

namespace RockStream

open Lib

/-- `row_id_hash`; `encode_row` is `rowKey`. -/
def rowIdHash (vals : List Int64) : RowId := fnvPair (rowKey vals)

def topkBufferLimit : Nat := 100000

structure BufferEntry where
  rankValue : Int64
  rowVals : List Int64
  netWeight : Int
deriving DecidableEq

structure PartitionState where
  buffer : HashMap RowId BufferEntry
  positiveCount : Nat
  spilled : Finset RowId
  /-- The currently emitted rows with their multiplicities. -/
  emitted : HashMap RowId (List Int64 × Int)
deriving DecidableEq

def PartitionState.new : PartitionState :=
  { buffer := ∅, positiveCount := 0, spilled := ∅, emitted := ∅ }

structure TopKOp where
  schema : List Field
  k : Nat
  rankCol : Nat
  partitionBy : List Nat
  spillId : BitVec 128

structure TopKState where
  partitions : HashMap Bytes PartitionState
  db : Option Store
  spillSlot : UInt8
  recovering : Bool
deriving DecidableEq

/-- What the storage does in one epoch: the message of a failing scan, by prefix, and of a failing
write. -/
structure SpillEnv where
  scanFailure : Bytes → Option String
  writeFailure : Option String

/-! ## Records -/

def topkCorruption : Fault := .err (.storage "corrupt topk record")

def encodeTopkValue (entry : BufferEntry) : Bytes :=
  Bytes.ofInt64 entry.rankValue ++ Bytes.ofInt64 (Int64.ofInt entry.netWeight) ++
    rowKey entry.rowVals

def decodeTopkValue (bytes : Bytes) (nInputCols : Nat) : Option BufferEntry :=
  if bytes.length ≠ 16 + nInputCols * 8 then none
  else some
    { rankValue := Bytes.toInt64 (bytes.take 8)
      netWeight := (Bytes.toInt64 ((bytes.drop 8).take 8)).toInt
      rowVals := Bytes.words (bytes.drop 16) }

namespace TopKOp

variable (op : TopKOp)

def nInputCols : Nat := op.schema.length

/-- A column of the row, or zero where the operator has no such column. -/
def column (vals : List Int64) (col : Nat) : Exec Int64 :=
  if col < op.nInputCols then
    match vals[col]? with
    | some value => .ok value
    | none => .error (.panicked "index out of bounds")
  else .ok 0

def partitionKeyBytes (vals : List Int64) : Exec Bytes := do
  let columns ← op.partitionBy.mapM (op.column vals)
  pure (rowKey columns)

def spillSlotPrefix (slot : UInt8) : Bytes :=
  ("topk_spill:v2:".toList.map fun char => UInt8.ofNat char.toNat) ++
    Bytes.beBytes 16 op.spillId.toNat ++ [slot]

def spillPartitionPrefix (slot : UInt8) (partKey : Bytes) : Bytes :=
  op.spillSlotPrefix slot ++ Bytes.beBytes 8 op.partitionBy.length ++ partKey

def spillKey (slot : UInt8) (partKey : Bytes) (rowId : RowId) : Bytes :=
  op.spillPartitionPrefix slot partKey ++ Bytes.beBytes 16 rowId.toNat

/-- The records of a scan; their order does not matter to the caller. -/
def scanPrefix (store : Store) (start : Bytes) : List (Bytes × Bytes) :=
  store.toPairs.filter fun record => start.isPrefixOf record.1

/-- One record of the scan in `read_spilled`; records of other row ids are skipped. -/
def readRecord (part : PartitionState) (start : Bytes) (entries : HashMap RowId BufferEntry)
    (record : Bytes × Bytes) : Exec (HashMap RowId BufferEntry) :=
  if record.1.length ≠ start.length + 16 then .error topkCorruption
  else
    let rowId := BitVec.ofNat 128 (Bytes.ofBeBytes (record.1.drop start.length))
    if rowId ∈ part.spilled then
      match decodeTopkValue record.2 op.nInputCols with
      | none => .error topkCorruption
      | some entry =>
        if rowIdHash entry.rowVals ≠ rowId then .error topkCorruption
        else .ok (entries.insert rowId entry)
    else .ok entries

def readSpilled (env : SpillEnv) (db : Option Store) (part : PartitionState)
    (start : Bytes) : Exec (HashMap RowId BufferEntry) :=
  if part.spilled = ∅ then .ok ∅
  else match db with
    | none => .error (.err (.storage "topk spill database missing"))
    | some store =>
      match env.scanFailure start with
      | some message => .error (.err (.storage message))
      | none => do
        let entries ← (scanPrefix store start).foldlM (op.readRecord part start) ∅
        if entries.keys.toFinset = part.spilled then pure entries else .error topkCorruption

/-! ## The delta -/

/-- One partition while an epoch is staged: its state, its spilled entries, and the writes. -/
structure StagedPart where
  part : PartitionState
  spills : HashMap RowId BufferEntry
  writes : List StateMutation

def StagedPart.spill (staged : StagedPart) (key : Bytes) (rowId : RowId) (entry : BufferEntry) :
    StagedPart :=
  { part := { staged.part with spilled := insert rowId staged.part.spilled }
    spills := staged.spills.insert rowId entry
    writes := staged.writes ++ [.put key (encodeTopkValue entry)] }

def applySpilled (staged : StagedPart) (key : Bytes) (rowId : RowId) (rankValue : Int64)
    (vals : List Int64) (delta : Int) : Exec StagedPart :=
  match staged.spills.lookup rowId with
  | none => .error (.panicked "index out of bounds")
  | some old => do
    let netWeight ← addI64 old.netWeight delta
    if netWeight = 0 then
      pure
        { part := { staged.part with spilled := staged.part.spilled.erase rowId }
          spills := staged.spills.erase rowId
          writes := staged.writes ++ [.delete key] }
    else
      pure (staged.spill key rowId ⟨rankValue, vals, netWeight⟩)

section

variable (hasDb : Bool) (staged : StagedPart) (key : Bytes) (rowId : RowId) (rankValue : Int64)
  (vals : List Int64) (delta : Int)

def applyOccupied (old : BufferEntry) : Exec StagedPart := do
  let netWeight ← addI64 old.netWeight delta
  if old.netWeight < 0 ∧ 0 < netWeight ∧ topkBufferLimit ≤ staged.part.positiveCount then
    if hasDb then
      pure (StagedPart.spill
        { staged with part := { staged.part with buffer := staged.part.buffer.erase rowId } }
        key rowId ⟨rankValue, vals, netWeight⟩)
    else .error (.err (.topKBufferOverflow topkBufferLimit))
  else do
    let without ← subUsize staged.part.positiveCount (if 0 < old.netWeight then 1 else 0)
    if netWeight = 0 then
      pure { staged with part := { staged.part with
        buffer := staged.part.buffer.erase rowId
        positiveCount := without } }
    else
      pure { staged with part := { staged.part with
        buffer := staged.part.buffer.insert rowId ⟨rankValue, vals, netWeight⟩
        positiveCount := without + if 0 < netWeight then 1 else 0 } }

/-- A row without an entry. A negative weight is kept as a debt. -/
def applyVacant : Exec StagedPart :=
  if delta < 0 then
    .ok { staged with part := { staged.part with
      buffer := staged.part.buffer.insert rowId ⟨rankValue, vals, delta⟩ } }
  else if topkBufferLimit ≤ staged.part.positiveCount then
    if hasDb then .ok (staged.spill key rowId ⟨rankValue, vals, delta⟩)
    else .error (.err (.topKBufferOverflow topkBufferLimit))
  else
    .ok { staged with part := { staged.part with
      buffer := staged.part.buffer.insert rowId ⟨rankValue, vals, delta⟩
      positiveCount := staged.part.positiveCount + 1 } }

def applyRow : Exec StagedPart :=
  if rowId ∈ staged.part.spilled then applySpilled staged key rowId rankValue vals delta
  else match staged.part.buffer.lookup rowId with
    | some old => applyOccupied hasDb staged key rowId rankValue vals delta old
    | none => applyVacant hasDb staged key rowId rankValue vals delta

end

/-- The staged epoch: only touched partitions. -/
structure Staged where
  partitions : HashMap Bytes PartitionState
  spills : HashMap Bytes (HashMap RowId BufferEntry)
  dirty : List Bytes
  writes : List StateMutation

def Staged.new : Staged := ⟨∅, ∅, [], []⟩

/-- A partition as the epoch finds it: staged already, or as accepted with its spilled rows read. -/
def stagePartition (env : SpillEnv) (state : TopKState) (staged : Staged)
    (partKey : Bytes) : Exec StagedPart :=
  match staged.partitions.lookup partKey, staged.spills.lookup partKey with
  | some part, some spills => .ok ⟨part, spills, staged.writes⟩
  | some _, none => .error (.panicked "unwrap on None")
  | none, _ => do
    let part := (state.partitions.lookup partKey).getD .new
    let spills ← op.readSpilled env state.db part (op.spillPartitionPrefix state.spillSlot partKey)
    pure ⟨part, spills, staged.writes⟩

def processRow (env : SpillEnv) (state : TopKState) (staged : Staged)
    (row : List Cell × Int) : Exec Staged :=
  if row.2 = 0 then .ok staged
  else do
    let vals := extractRowVals (row.1.take op.nInputCols)
    let rankValue ← op.column vals op.rankCol
    let partKey ← op.partitionKeyBytes vals
    let rowId := rowIdHash vals
    let part ← op.stagePartition env state staged partKey
    let next ← applyRow state.db.isSome part (op.spillKey state.spillSlot partKey rowId) rowId
      rankValue vals row.2
    pure
      { partitions := staged.partitions.insert partKey next.part
        spills := staged.spills.insert partKey next.spills
        dirty := staged.dirty.insert partKey
        writes := next.writes }

/-! ## The selection -/

/-- The comparator of the sort: rank descending, then row bytes ascending. -/
abbrev Ahead : RowId × BufferEntry → RowId × BufferEntry → Prop :=
  ByRank (fun entry => entry.2.rankValue) fun entry => rowKey entry.2.rowVals

/-- The loop over the sorted entries. -/
def takeEntries : Int → List (RowId × BufferEntry) → HashMap RowId (List Int64 × Int) →
    HashMap RowId (List Int64 × Int)
  | _, [], selected => selected
  | remaining, entry :: rest, selected =>
    if remaining = 0 then selected
    else
      let emittedCount := min entry.2.netWeight remaining
      takeEntries (remaining - emittedCount) rest
        (selected.insert entry.1 (entry.2.rowVals, emittedCount))

def selectTopk (part : PartitionState) (k : Nat) (spills : HashMap RowId BufferEntry) :
    HashMap RowId (List Int64 × Int) :=
  takeEntries (min k (2 ^ 63 - 1))
    (((part.buffer.toPairs ++ spills.toPairs).filter
      fun entry => 0 < entry.2.netWeight).insertionSort
      Ahead) ∅

def countOf (selected : HashMap RowId (List Int64 × Int)) (rowId : RowId) : Int :=
  ((selected.lookup rowId).map Prod.snd).getD 0

/-- What a partition emits: retractions, then insertions. -/
def emissions (old new : HashMap RowId (List Int64 × Int)) : List (List Int64 × Int) :=
  (old.toPairs.filter fun entry => countOf new entry.1 < entry.2.2).map
      (fun entry => (entry.2.1, countOf new entry.1 - entry.2.2)) ++
    (new.toPairs.filter fun entry => countOf old entry.1 < entry.2.2).map
      fun entry => (entry.2.1, entry.2.2 - countOf old entry.1)

/-- Recompute one dirty partition. -/
def refresh (staged : Staged) (current : List (List Int64 × Int) × HashMap Bytes PartitionState)
    (partKey : Bytes) : List (List Int64 × Int) × HashMap Bytes PartitionState :=
  match current.2.lookup partKey with
  | none => current
  | some part =>
    let newTopk := selectTopk part op.k ((staged.spills.lookup partKey).getD ∅)
    (current.1 ++ emissions part.emitted newTopk,
      current.2.insert partKey { part with emitted := newTopk })

/-! ## Epochs -/

def buildOutput (rows : List (List Int64 × Int)) : Exec ArrowZSet :=
  buildValues op.schema rowIdHash rows

/-- The spill writes of the epoch; without writes the store is not touched. -/
def writeSpills (env : SpillEnv) (db : Option Store) (writes : List StateMutation) :
    Exec (Option Store) :=
  if writes.isEmpty then .ok db
  else match db with
    | none => .error (.panicked "unwrap on None")
    | some store =>
      match env.writeFailure with
      | some message => .error (.err (.storage message))
      | none => .ok (some (store.writeBatch writes))

def publish (accepted staged : HashMap Bytes PartitionState) : HashMap Bytes PartitionState :=
  staged.toPairs.foldl (fun map entry => map.insert entry.1 entry.2) accepted

/-- The epoch up to its publication. -/
def runEpoch (env : SpillEnv) (state : TopKState) (delta : ArrowZSet) :
    Exec (ArrowZSet × TopKState) := do
  let staged ← delta.rows.foldlM (op.processRow env state) .new
  let refreshed := staged.dirty.foldl (op.refresh staged) ([], staged.partitions)
  let output ← op.buildOutput refreshed.1
  let db ← writeSpills env state.db staged.writes
  pure (output, { state with partitions := publish state.partitions refreshed.2, db := db })

/-- `TopKOp::process_epoch`: a failed epoch leaves the state as it was. -/
def processEpoch (state : TopKState) (epoch : ArrowZSet × SpillEnv) :
    Step TopKState (ArrowZSet × TopKState) :=
  Exec.within state <|
    if epoch.1.rows.isEmpty then do
      let output ← ArrowZSet.empty op.schema
      pure (output, state)
    else if state.recovering then .error (.err (.storage "topk recovery in progress"))
    else op.runEpoch epoch.2 state epoch.1

/-- A new operator, with or without a spill store. -/
def initial (db : Option Store) : TopKState :=
  { partitions := ∅, db := db, spillSlot := 0, recovering := false }

end TopKOp

end RockStream
