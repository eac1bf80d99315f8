import RockStream.Arrow
import RockStream.Lib.Ranking
import RockStream.Storage

/-!
Contract: the incremental GROUP BY aggregate (`aggregate.rs`).

A batch is first consolidated into one net change per group, in 128-bit arithmetic.
Every group's next state is then planned against the arrangement, where a group that
is not in memory is read from the attached store, and only when all groups have a
next state is anything installed. Clean groups may be evicted afterwards.

Owns:
- the arrangement, its dirty set and its list of clean groups;
- `transition`, `planTransition`, the next state of one group;
- `processDeltaWithResult`, and the persistence of the dirty groups.

Does not own: `arrow::compute::cast` and the division of two doubles, which are
parameters, and the operator metrics that are only reported.
-/

namespace RockStream

open Lib

def InI128 (value : Int) : Prop := -2 ^ 127 ≤ value ∧ value < 2 ^ 127

instance (value : Int) : Decidable (InI128 value) := by
  unfold InI128
  infer_instance

/-- What the operator takes from outside: the casts of `arrow::compute`, by column type, where a
value that cannot be converted becomes NULL, and the quotient of two `i64` as doubles. -/
structure AggregateEnv where
  castInt64 : DataType → Option (Value → Option Int64)
  /-- A cast to `Float64` followed by `as i64`. -/
  castFloat64 : DataType → Option (Value → Option Int64)
  /-- The bits of `sum as f64 / count as f64`. -/
  quotient : Int64 → Int64 → Bytes

/-- `avg_from_sum_count(sum, count).unwrap_or(0.0)`. -/
def AggregateEnv.avg (env : AggregateEnv) (sum count : Int64) : Bytes :=
  if count = 0 then List.replicate 8 0 else env.quotient sum count

/-- `(sum, count)` of one group. -/
abbrev GroupState := Int64 × Int64

/-- `AggregateOp`: its limits, and whether a store is attached. -/
structure AggregateOp where
  opId : UInt64
  maxGroups : Nat
  maxBytes : Nat
  maxStateBytes : Nat
  hasDb : Bool
deriving DecidableEq, Repr

/-- The mutable part of `AggregateOp`. -/
structure AggregateState where
  entries : HashMap Int64 GroupState
  dirtyKeys : List Int64
  cleanLru : List Int64
  lastConsolidationGroups : Nat
  lastConsolidationBytes : Nat

namespace AggregateState

def new : AggregateState := ⟨∅, [], [], 0, 0⟩

def stateBytes (entries : HashMap Int64 GroupState) : Nat := HashMap.size entries * 24

end AggregateState

def maxCleanLruCapacity : Nat := 262144

/-- The order in which the set of dirty keys is iterated. -/
structure DirtyOrder where
  keys : List Int64 → List Int64
  keys_perm : ∀ dirty, (keys dirty).Perm dirty

/-! ## Columns -/

namespace AggregateEnv

/-- The slots of a column under a conversion; NULL stays NULL. -/
def converted (convert : Value → Option Int64) (cells : List Cell) : List (Option Int64) :=
  cells.map fun cell => cell.get.bind convert

def int64Value : Value → Option Int64
  | .int64 value => some value
  | _ => none

def keyColumn (env : AggregateEnv) (dataType : DataType) (cells : List Cell) :
    Exec (List (Option Int64)) :=
  match dataType with
  | .int64 => .ok (converted int64Value cells)
  | dataType =>
    match env.castInt64 dataType with
    | some cast => .ok (converted cast cells)
    | none => .error (.err (.columnTypeMismatch "Int64" dataType.debug))

/-- One slot of a `Decimal128Array`; NULL reads as zero. -/
def decimalSlot (cell : Cell) : Exec (Option Int64) :=
  match cell.get with
  | some (.decimal128 _ _ value) =>
    if InI64 value then .ok (some (Int64.ofInt value))
    else .error (.err (.columnTypeMismatch "Decimal128 fitting Int64" "Decimal128"))
  | _ => .ok (some 0)

/-- The values to aggregate. Only the slots of an Int64 column or of a cast to Int64 can be NULL
here. -/
def valueColumn (env : AggregateEnv) (dataType : DataType) (cells : List Cell) :
    Exec (List (Option Int64)) :=
  match dataType with
  | .int64 => .ok (converted int64Value cells)
  | .decimal128 _ _ => cells.mapM decimalSlot
  | dataType =>
    match env.castInt64 dataType with
    | some cast => .ok (converted cast cells)
    | none =>
      match env.castFloat64 dataType with
      | some cast => .ok (cells.map fun cell => some ((cell.get.bind cast).getD 0))
      | none => .error (.err (.columnTypeMismatch "Int64" dataType.debug))

end AggregateEnv

/-- What the row loop reads of one row. -/
structure AggregateInput where
  key : Option Int64
  value : Option Int64
  rawValid : Bool
  weight : Int
deriving DecidableEq, Repr

/-- The rows of a batch as the loop reads them. -/
def AggregateEnv.inputs (env : AggregateEnv) (delta : ArrowZSet) : Exec (List AggregateInput) :=
  match delta.fields with
  | keyField :: valueField :: _ => do
    let keyCells := delta.rows.map fun row => row.1.getD 0 (Cell.ofInt64? none)
    let valueCells := delta.rows.map fun row => row.1.getD 1 (Cell.ofInt64? none)
    let keys ← env.keyColumn keyField.dataType keyCells
    let values ← env.valueColumn valueField.dataType valueCells
    pure ((keys.zip values).zipWith
      (fun (slots : Option Int64 × Option Int64) (row : Bool × Int) =>
        ⟨slots.1, slots.2, row.1, row.2⟩)
      (delta.rows.map fun row => ((row.1.getD 1 (Cell.ofInt64? none)).valid, row.2)))
  | fields => .error (.err (.columnOutOfBounds 1 fields.length))

/-! ## Consolidation -/

structure StagedEpochAggregator where
  entries : HashMap Int64 (Int × Int)
  order : List Int64
  maxGroups : Nat
  maxBytes : Nat
  estimatedBytes : Nat

namespace StagedEpochAggregator

variable (staged : StagedEpochAggregator)

def withLimits (maxGroups maxBytes : Nat) : StagedEpochAggregator := ⟨∅, [], maxGroups, maxBytes, 0⟩

/-- The branch of `ingest_delta` for a group that is already staged. -/
def addTo (key : Int64) (prod weight : Int) (staged? : Int × Int) : Exec StagedEpochAggregator :=
  if InI128 (staged?.1 + prod) ∧ InI64 (staged?.2 + weight) then
    .ok { staged with entries :=
      staged.entries.insert key (staged?.1 + prod, staged?.2 + weight) }
  else
    .error (.err (.aggregateOverflow key))

/-- The branch for a new group. The source's two `checked_add` on `usize` cannot fail: a map has
fewer than `2 ^ 57` entries of 64 bytes. -/
def addNew (key : Int64) (prod weight : Int) : Exec StagedEpochAggregator :=
  if HashMap.size staged.entries + 1 > staged.maxGroups then
    .error (.err (.capacityExceeded "epoch consolidation groups" (HashMap.size staged.entries + 1)
      staged.maxGroups "reduce epoch distinct groups or increase MAX_EPOCH_CONSOLIDATION_GROUPS"))
  else if staged.estimatedBytes + 64 > staged.maxBytes then
    .error (.err (.capacityExceeded "epoch consolidation bytes" (staged.estimatedBytes + 64)
      staged.maxBytes "reduce epoch batch size or increase MAX_EPOCH_CONSOLIDATION_BYTES"))
  else
    .ok { staged with
      entries := staged.entries.insert key (prod, weight)
      order := staged.order ++ [key]
      estimatedBytes := staged.estimatedBytes + 64 }

def ingestDelta (key value : Int64) (weight : Int) : Exec StagedEpochAggregator :=
  if weight = 0 then .ok staged
  else if ¬ InI64 (value.toInt * weight) then .error (.err (.aggregateOverflow key))
  else
    match staged.entries.lookup key with
    | some net => staged.addTo key (value.toInt * weight) weight net
    | none => staged.addNew key (value.toInt * weight) weight

/-- One turn of the row loop: rows with a NULL key or value, and rows of weight zero, are
skipped. -/
def ingestRow (input : AggregateInput) : Exec StagedEpochAggregator :=
  match input.key, input.value, input.rawValid with
  | some key, some value, true =>
    if input.weight = 0 then .ok staged else staged.ingestDelta key value input.weight
  | _, _, _ => .ok staged

def net (key : Int64) : Exec (Int × Int) :=
  match staged.entries.lookup key with
  | some net => .ok net
  | none => .error (.panicked "no entry found for key")

end StagedEpochAggregator

/-! ## The next state of a group -/

def transition (oldSum oldCount : Int64) (deltaSum deltaCount : Int) : Option GroupState :=
  if oldCount < 0 ∨ (oldCount = 0 ∧ oldSum ≠ 0) then none
  else if ¬ InI64 (oldCount.toInt + deltaCount) ∨ oldCount.toInt + deltaCount < 0 then none
  else if ¬ InI128 (oldSum.toInt + deltaSum) then none
  else if oldCount.toInt + deltaCount = 0 then
    if oldSum.toInt + deltaSum = 0 then some (0, 0) else none
  else if InI64 (oldSum.toInt + deltaSum) then
    some (Int64.ofInt (oldSum.toInt + deltaSum), Int64.ofInt (oldCount.toInt + deltaCount))
  else none

/-- The checked next state of a group whose state before is `old`. -/
def nextState (key : Int64) (old : GroupState) (deltaSum deltaCount : Int) :
    Exec (Option GroupState) :=
  if ¬ InI64 (old.2.toInt + deltaCount) then .error (.err (.aggregateOverflow key))
  else if old.2.toInt + deltaCount < 0 then
    .error (.err (.invalidMultiplicity key (old.2.toInt + deltaCount)))
  else
    match transition old.1 old.2 deltaSum deltaCount with
    | some next => .ok (if 0 < old.2.toInt + deltaCount then some next else none)
    | none =>
      if old.2.toInt + deltaCount = 0 then
        .error (.err (.invalidLiteral s!"aggregate group {key} has zero count with nonzero sum"))
      else .error (.err (.aggregateOverflow key))

structure GroupTransition where
  key : Int64
  oldState : Option GroupState
  newState : Option GroupState
  changed : Bool
deriving DecidableEq, Repr

/-- A stored pair is a group's state when its count is positive. -/
def liveState (old : GroupState) : Option GroupState := if 0 < old.2 then some old else none

/-- The transition of one group, given its stored pair and its net change. -/
def planTransition (key : Int64) (old : GroupState) (net : Int × Int) : Exec GroupTransition :=
  if old.2 < 0 ∨ (old.2 = 0 ∧ old.1 ≠ 0) then
    .error (.err (.invalidLiteral s!"aggregate group {key} has an invalid existing state"))
  else if net.1 = 0 ∧ net.2 = 0 then
    .ok ⟨key, liveState old, liveState old, false⟩
  else do
    let newState ← nextState key old net.1 net.2
    pure ⟨key, liveState old, newState, decide (liveState old ≠ newState)⟩

namespace AggregateOp

variable (op : AggregateOp)

/-! ## Records in the store -/

def stateKey (key : Int64) : Bytes :=
  ShardKeyEncoder.encode .opState op.opId (Bytes.ofInt64 key)

def encodeState (state : GroupState) : Bytes := Bytes.ofInt64 state.1 ++ Bytes.ofInt64 state.2

def encodeStateMutation (key : Int64) : Option GroupState → StateMutation
  | some state => .put (op.stateKey key) (encodeState state)
  | none => .delete (op.stateKey key)

/-- What a demand load makes of a record: longer records are cut, shorter ones and those without a
positive count are ignored. -/
def decodeState (bytes : Bytes) : Option GroupState :=
  if 16 ≤ bytes.length then
    liveState (Bytes.toInt64 (bytes.take 8), Bytes.toInt64 ((bytes.drop 8).take 8))
  else none

/-- The demand load of a group that is neither in memory nor dirty. -/
def demandLoad (db : Option ShardReader) (state : AggregateState) (key : Int64) :
    Exec (Option GroupState) :=
  if (state.entries.lookup key).isSome ∨ key ∈ state.dirtyKeys then .ok none
  else
    match db with
    | none => .ok none
    | some get =>
      match get (op.stateKey key) with
      | .error detail => .error (.err (.storage s!"AggregateOp demand load failed: {detail}"))
      | .ok none => .ok none
      | .ok (some bytes) => .ok (decodeState bytes)

/-! ## Planning and installing a batch -/

structure Planned where
  transition : GroupTransition
  demandLoaded : Option GroupState
deriving DecidableEq, Repr

def planGroup (db : Option ShardReader) (state : AggregateState)
    (staged : StagedEpochAggregator) (key : Int64) : Exec Planned := do
  let net ← staged.net key
  let loaded ← op.demandLoad db state key
  let transition ← planTransition key (((state.entries.lookup key).or loaded).getD (0, 0)) net
  pure ⟨transition, loaded⟩

/-- `push_back` on the list of clean groups, which forgets its oldest member when it is full. -/
def pushClean (cleanLru : List Int64) (key : Int64) : List Int64 :=
  if cleanLru.length + 1 > maxCleanLruCapacity then (cleanLru ++ [key]).tail else cleanLru ++ [key]

/-- A demand-loaded group enters the arrangement as a clean one. -/
def insertLoaded (state : AggregateState) (planned : Planned) : AggregateState :=
  match planned.demandLoaded with
  | some loaded =>
    { state with
      entries := state.entries.insert planned.transition.key loaded
      cleanLru := pushClean state.cleanLru planned.transition.key }
  | none => state

def install (entries : HashMap Int64 GroupState) (transition : GroupTransition) :
    HashMap Int64 GroupState :=
  if transition.changed then
    match transition.newState with
    | some next => entries.insert transition.key next
    | none => entries.erase transition.key
  else entries

/-- The eviction loop: oldest clean groups go while the arrangement is over the limit. A group that
has become dirty since is taken off the list and kept. -/
def evict (limit : Nat) (dirtyKeys : List Int64) :
    HashMap Int64 GroupState → List Int64 → HashMap Int64 GroupState × List Int64
  | entries, [] => (entries, [])
  | entries, cold :: cleanLru =>
    if AggregateState.stateBytes entries > limit then
      evict limit dirtyKeys (if cold ∈ dirtyKeys then entries else entries.erase cold) cleanLru
    else (entries, cold :: cleanLru)

/-- Evict where a limit is set and a store is attached. -/
def evictOver (state : AggregateState) : AggregateState :=
  if op.maxStateBytes > 0 ∧ op.hasDb then
    { state with
      entries := (evict op.maxStateBytes state.dirtyKeys state.entries state.cleanLru).1
      cleanLru := (evict op.maxStateBytes state.dirtyKeys state.entries state.cleanLru).2 }
  else state

def outputSchema : List Field :=
  [⟨"k", .int64, false⟩, ⟨"sum_v", .int64, false⟩, ⟨"count", .int64, false⟩,
    ⟨"avg_v", .other "Float64", false⟩]

def outputRow (env : AggregateEnv) (key : Int64) (state : GroupState) : List Cell :=
  [.ofInt64 key, .ofInt64 state.1, .ofInt64 state.2,
    ⟨.other "Float64" (env.avg state.1 state.2), true⟩]

/-- The retraction and the insertion of one transition. -/
def outputRows (env : AggregateEnv) (transition : GroupTransition) : List (List Cell × Int) :=
  if transition.changed then
    (transition.oldState.toList.map fun state => (outputRow env transition.key state, -1)) ++
      transition.newState.toList.map fun state => (outputRow env transition.key state, 1)
  else []

def buildOutput (env : AggregateEnv) (transitions : List GroupTransition) : Exec ArrowZSet :=
  if (transitions.flatMap (outputRows env)).isEmpty then ArrowZSet.empty outputSchema
  else ArrowZSet.tryNew outputSchema (transitions.flatMap (outputRows env))

structure Metrics where
  inputRecords : Nat
  outputRecords : Nat
  dirtyKeys : Nat
  stateMutations : Nat
  logicalMutationBytes : Nat
  fullStateEntriesVisited : Nat
  stateBytes : Nat
deriving DecidableEq, Repr

structure EpochResult where
  outputDelta : ArrowZSet
  mutations : List StateMutation
  metrics : Metrics

def mutationStates (transitions : List GroupTransition) : List (Int64 × Option GroupState) :=
  ((transitions.filter (·.changed)).map fun transition =>
    (transition.key, transition.newState)).insertionSort fun left right => left.1 ≤ right.1

/-- The second half of `process_delta_with_result`: nothing of a batch is installed before its
output is built. -/
def commitPlanned (env : AggregateEnv) (inputRecords : Nat) (planned : List Planned)
    (state : AggregateState) : Step AggregateState (EpochResult × AggregateState) := do
  let transitions := planned.map (·.transition)
  let loaded := planned.foldl insertLoaded state
  let mutations := (mutationStates transitions).map fun entry =>
    op.encodeStateMutation entry.1 entry.2
  let output ← (buildOutput env transitions).within loaded
  let entries := transitions.foldl install loaded.entries
  let dirty := (transitions.filter (·.changed)).map (·.key)
  let installed := { loaded with
    entries := entries
    dirtyKeys := dirty.foldl (fun keys key => keys.insert key) loaded.dirtyKeys }
  pure (⟨output, mutations,
    ⟨inputRecords, output.rows.length, dirty.length, mutations.length,
      (mutations.map StateMutation.sizeBytes).sum, 0, AggregateState.stateBytes entries⟩⟩,
    op.evictOver installed)

/-- The part of `process_delta_with_result` after the columns are read. -/
def processInputs (env : AggregateEnv) (db : Option ShardReader) (state : AggregateState)
    (inputs : List AggregateInput) : Step AggregateState (EpochResult × AggregateState) := do
  let staged ← (inputs.foldlM StagedEpochAggregator.ingestRow
    (.withLimits op.maxGroups op.maxBytes)).within state
  let measured := { state with
    lastConsolidationGroups := HashMap.size staged.entries
    lastConsolidationBytes := staged.estimatedBytes }
  let planned ← (staged.order.mapM (op.planGroup db measured staged)).within measured
  op.commitPlanned env inputs.length planned measured

def processDeltaWithResult (env : AggregateEnv) (db : Option ShardReader) (state : AggregateState)
    (delta : ArrowZSet) : Step AggregateState (EpochResult × AggregateState) := do
  if delta.rows.isEmpty then
    let output ← (ArrowZSet.empty outputSchema).within state
    pure (⟨output, [], ⟨0, 0, 0, 0, 0, 0, 0⟩⟩, state)
  else
    let inputs ← (env.inputs delta).within state
    op.processInputs env db state inputs

/-! ## Persistence -/

def clearDirtyKeys (order : DirtyOrder) (state : AggregateState) : AggregateState :=
  op.evictOver { state with
    cleanLru := ((order.keys state.dirtyKeys).filter fun key =>
      (state.entries.lookup key).isSome).foldl pushClean state.cleanLru
    dirtyKeys := [] }

/-- `append_agg_state`: the mutations of the dirty groups, by key. -/
def appendAggState (state : AggregateState) : List StateMutation :=
  (state.dirtyKeys.insertionSort (· ≤ ·)).map fun key =>
    op.encodeStateMutation key (state.entries.lookup key)

end AggregateOp

end RockStream
