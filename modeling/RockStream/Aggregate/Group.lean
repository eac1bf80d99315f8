import RockStream.Aggregate.Op

/-!
Contract: what consolidation and one group's transition compute.

The input of an aggregate is a list of weighted (key, value) pairs: the rows whose key
and value are not NULL. A group's exact sum and count over such a list are integers;
a stored state represents them when it holds the same numbers and its count is positive,
and no state represents a sum and a count of zero.

Owns:
- `groupSum`, `groupCount`, and `StateRepresents`, which determines the state;
- the step from one represented state to the next, for a net change (`planTransition`);
- the consolidation loop, and the pairs that a batch contributes.

Does not own: where the states are stored.
-/

namespace RockStream

open Lib Loop Weighted List

variable {sum count deltaSum deltaCount weight : Int} {state : Option GroupState}
  {oldSum oldCount key value : Int64} {next : GroupState} {net : Int × Int}
  {inputs : List AggregateInput} {dataType : DataType} {cells : List Cell} {cell : Cell}

/-! ## Exact totals of a group -/

def groupSum (pairs : Pairs) (key : Int64) : Int :=
  integrate (fun pair => if pair.1 = key then pair.2.toInt else 0) pairs

def groupCount (pairs : Pairs) (key : Int64) : Int :=
  integrate (fun pair => if pair.1 = key then 1 else 0) pairs

@[simp] theorem groupSum_append (left right : Pairs) (key : Int64) :
    groupSum (left ++ right) key = groupSum left key + groupSum right key :=
  integrate_append _ _ _

@[simp] theorem groupCount_append (left right : Pairs) (key : Int64) :
    groupCount (left ++ right) key = groupCount left key + groupCount right key :=
  integrate_append _ _ _

@[simp] theorem groupSum_single (key value query : Int64) (weight : Int) :
    groupSum [((key, value), weight)] query = if key = query then value.toInt * weight else 0 := by
  simp [groupSum]

@[simp] theorem groupCount_single (key value query : Int64) (weight : Int) :
    groupCount [((key, value), weight)] query = if key = query then weight else 0 := by
  simp [groupCount]

/-- A stored state holds a group's exact sum and its exact, positive count; an absent one stands
for zeros. -/
def StateRepresents (state : Option GroupState) (sum count : Int) : Prop :=
  match state with
  | some state => state.1.toInt = sum ∧ state.2.toInt = count ∧ 0 < count
  | none => sum = 0 ∧ count = 0

namespace StateRepresents

theorem unique {left right : Option GroupState} (leftHolds : StateRepresents left sum count)
    (rightHolds : StateRepresents right sum count) : left = right := by
  cases left with
  | none =>
    cases right with
    | none => rfl
    | some right =>
      obtain ⟨_, rfl⟩ := leftHolds
      exact absurd rightHolds.2.2 (by simp)
  | some left =>
    cases right with
    | none =>
      obtain ⟨_, rfl⟩ := rightHolds
      exact absurd leftHolds.2.2 (by simp)
    | some right =>
      have sameSum := Int64.toInt.inj (leftHolds.1.trans rightHolds.1.symm)
      have sameCount := Int64.toInt.inj (leftHolds.2.1.trans rightHolds.2.1.symm)
      rw [Prod.ext sameSum sameCount]

/-- The pair that the code reads, zeros for an absent group, has the exact totals. -/
theorem getD (holds : StateRepresents state sum count) :
    (state.getD (0, 0)).1.toInt = sum ∧ (state.getD (0, 0)).2.toInt = count := by
  cases state with
  | none => exact ⟨holds.1.symm, holds.2.symm⟩
  | some state => exact ⟨holds.1, holds.2.1⟩

theorem liveState_getD
    (holds : StateRepresents state sum count) : liveState (state.getD (0, 0)) = state := by
  cases state with
  | none => rfl
  | some state =>
    have positive : 0 < state.2 := by
      rw [Int64.lt_iff_toInt_lt, Int64.toInt_zero, holds.2.1]
      exact holds.2.2
    simp [liveState, positive]

end StateRepresents

/-! ## One group's next state -/

theorem transition_eq_some (moved : transition oldSum oldCount deltaSum deltaCount = some next) :
    next.1.toInt = oldSum.toInt + deltaSum ∧ next.2.toInt = oldCount.toInt + deltaCount ∧
      (oldCount.toInt + deltaCount = 0 → oldSum.toInt + deltaSum = 0) := by
  unfold transition at moved
  split at moved
  · cases moved
  split at moved
  · cases moved
  next countFits =>
  rw [not_or, not_not] at countFits
  split at moved
  · cases moved
  split at moved
  · next countZero =>
    split at moved
    · next sumZero =>
      cases moved
      simp [countZero, sumZero]
    · cases moved
  next countNonzero =>
  split at moved
  · next sumFits =>
    cases moved
    exact ⟨Int64.toInt_ofInt_of_le sumFits.1 sumFits.2,
      Int64.toInt_ofInt_of_le countFits.1.1 countFits.1.2, fun zero => absurd zero countNonzero⟩
  · cases moved

theorem represents_nextState {old : GroupState}
    {new : Option GroupState} (advanced : nextState key old deltaSum deltaCount = .ok new) :
    StateRepresents new (old.1.toInt + deltaSum) (old.2.toInt + deltaCount) := by
  unfold nextState at advanced
  split at advanced
  · cases advanced
  split at advanced
  · cases advanced
  next nonneg =>
  split at advanced
  · next next moved =>
    cases advanced
    obtain ⟨sum, count, noSum⟩ := transition_eq_some moved
    split
    · next positive => exact ⟨sum, count, positive⟩
    · next notPositive =>
      have vanished : old.2.toInt + deltaCount = 0 := by omega
      exact ⟨noSum vanished, vanished⟩
  · split at advanced <;> cases advanced

/-- What the planned transition of a group says. -/
structure GroupTransition.Moves (transition : GroupTransition) (key : Int64)
    (old : Option GroupState) (sum count : Int) : Prop where
  sameKey : transition.key = key
  sameOld : transition.oldState = old
  new : StateRepresents transition.newState sum count
  unchanged : transition.changed = false → transition.newState = transition.oldState

theorem planTransition_moves {old : Option GroupState}
    {transition : GroupTransition} (holds : StateRepresents old sum count)
    (planned : planTransition key (old.getD (0, 0)) net = .ok transition) :
    transition.Moves key old (sum + net.1) (count + net.2) := by
  obtain ⟨oldSum, oldCount⟩ := holds.getD
  unfold planTransition at planned
  rw [holds.liveState_getD] at planned
  split at planned
  · cases planned
  split at planned
  · next still =>
    cases planned
    exact ⟨rfl, rfl, by simpa [still.1, still.2] using holds, fun _ => rfl⟩
  · obtain ⟨newState, advanced, done⟩ := bind_eq_ok.mp planned
    cases done
    refine ⟨rfl, rfl, ?_, fun same => ?_⟩
    · have next := represents_nextState advanced
      rw [oldSum, oldCount] at next
      exact next
    · exact (not_ne_iff.mp (of_decide_eq_false same)).symm

/-! ## Consolidation -/

/-- The staged net changes are the totals of the ingested pairs, and the order lists each staged
group once. -/
structure StagedEpochAggregator.Stages (staged : StagedEpochAggregator) (pairs : Pairs) : Prop where
  distinct : staged.order.Nodup
  listed : ∀ key, key ∈ staged.order ↔ (staged.entries.lookup key).isSome = true
  net : ∀ key,
    (staged.entries.lookup key).getD (0, 0) = (groupSum pairs key, groupCount pairs key)

def AggregateInput.pairs (input : AggregateInput) : Pairs :=
  match input.key, input.value, input.rawValid with
  | some key, some value, true => [((key, value), input.weight)]
  | _, _, _ => []

namespace StagedEpochAggregator

variable {staged next : StagedEpochAggregator} {pairs : Pairs}

theorem stages_withLimits (maxGroups maxBytes : Nat) :
    (withLimits maxGroups maxBytes).Stages [] where
  distinct := nodup_nil
  listed := fun _ => by simp [withLimits]
  net := fun _ => rfl

namespace Stages

variable (stages : staged.Stages pairs)
include stages

theorem net_insert (key value : Int64) (weight : Int) (query : Int64) : ((staged.entries.insert key
        ((((staged.entries.lookup key).getD (0, 0)).1 + value.toInt * weight,
          ((staged.entries.lookup key).getD (0, 0)).2 + weight))).lookup query).getD (0, 0) =
      (groupSum (pairs ++ [((key, value), weight)]) query,
        groupCount (pairs ++ [((key, value), weight)]) query) := by
  rw [HashMap.lookup_insert_eq, groupSum_append, groupCount_append, groupSum_single,
    groupCount_single, stages.net key]
  by_cases same : query = key
  · subst same
    simp
  · simp [same, Ne.symm same, stages.net query]

theorem addTo (found : staged.entries.lookup key = some net)
    (added : staged.addTo key (value.toInt * weight) weight net = .ok next) :
    next.Stages (pairs ++ [((key, value), weight)]) := by
  unfold StagedEpochAggregator.addTo at added
  split at added
  · cases added
    refine ⟨stages.distinct, fun query => ?_, fun query => ?_⟩
    · rw [stages.listed, HashMap.lookup_insert_eq]
      split
      · next same =>
        rw [same, found]
        rfl
      · rfl
    · have inserted := stages.net_insert key value weight query
      rw [found] at inserted
      exact inserted
  · cases added

theorem addNew (absent : staged.entries.lookup key = none)
    (added : staged.addNew key (value.toInt * weight) weight = .ok next) :
    next.Stages (pairs ++ [((key, value), weight)]) := by
  have unlisted : key ∉ staged.order := by simp [stages.listed, absent]
  unfold StagedEpochAggregator.addNew at added
  split at added
  · cases added
  split at added
  · cases added
  cases added
  refine ⟨?_, fun query => ?_, fun query => ?_⟩
  · rw [nodup_append]
    refine ⟨stages.distinct, nodup_singleton key, fun listed mem other same => ?_⟩
    rw [mem_singleton.mp same]
    rintro rfl
    exact unlisted mem
  · rw [mem_append, mem_singleton, stages.listed, HashMap.lookup_insert_eq]
    split
    · next same => simp [same]
    · next ne => simp [ne]
  · have inserted := stages.net_insert key value weight query
    rw [absent] at inserted
    simpa using inserted

theorem ingestDelta (nonzero : weight ≠ 0)
    (ingested : staged.ingestDelta key value weight = .ok next) :
    next.Stages (pairs ++ [((key, value), weight)]) := by
  unfold StagedEpochAggregator.ingestDelta at ingested
  rw [if_neg nonzero] at ingested
  split at ingested
  · cases ingested
  split at ingested
  · next found => exact stages.addTo found ingested
  · next absent => exact stages.addNew absent ingested

theorem append_zero (key value : Int64) : staged.Stages (pairs ++ [((key, value), 0)]) where
  distinct := stages.distinct
  listed := stages.listed
  net := fun query => by simp [stages.net query]

theorem ingestRow {input : AggregateInput} (ingested : staged.ingestRow input = .ok next) :
    next.Stages (pairs ++ input.pairs) := by
  have skipped (skips : staged.ingestRow input = .ok staged) (noPair : input.pairs = []) :
      next.Stages (pairs ++ input.pairs) := by
    cases skips.symm.trans ingested
    rw [noPair, append_nil]
    exact stages
  obtain ⟨key, value, rawValid, weight⟩ := input
  cases key with
  | none => exact skipped rfl rfl
  | some key =>
    cases value with
    | none => exact skipped rfl rfl
    | some value =>
      cases rawValid with
      | false => exact skipped rfl rfl
      | true =>
        simp only [StagedEpochAggregator.ingestRow] at ingested
        by_cases zero : weight = 0
        · rw [if_pos zero] at ingested
          cases ingested
          rw [zero]
          exact stages.append_zero key value
        · rw [if_neg zero] at ingested
          exact stages.ingestDelta zero ingested

end Stages

theorem stages_of_foldlM {maxGroups maxBytes : Nat}
    (ingested : inputs.foldlM ingestRow (withLimits maxGroups maxBytes) = .ok staged) :
    staged.Stages (inputs.flatMap AggregateInput.pairs) := by
  refine foldlM_invariant
    (fun done current => Stages current (done.flatMap AggregateInput.pairs))
    (fun done state input next held stepped => ?_) (stages_withLimits maxGroups maxBytes) ingested
  rw [flatMap_append, flatMap_singleton]
  exact Stages.ingestRow held stepped

end StagedEpochAggregator

/-! ## What a batch contributes -/

namespace AggregateEnv

variable (env : AggregateEnv)

/-- The group key that a value of the first column denotes. -/
def readKey : Value → Option Int64
  | .int64 key => some key
  | value => (env.castInt64 value.dataType).bind fun cast => cast value

/-- The number that a value of the second column denotes. -/
def readValue : Value → Option Int64
  | .int64 value => some value
  | .decimal128 _ _ value => some (Int64.ofInt value)
  | value =>
    match env.castInt64 value.dataType with
    | some cast => cast value
    | none => (env.castFloat64 value.dataType).map fun cast => (cast value).getD 0

/-- The (key, value) pair of a row, unless one of the two is NULL. -/
def pairOf (cells : List Cell) : Option (Int64 × Int64) :=
  ((cells.getD 0 (Cell.ofInt64? none)).get.bind env.readKey).bind fun key =>
    ((cells.getD 1 (Cell.ofInt64? none)).get.bind env.readValue).map fun value => (key, value)

def pairsOf (rows : List (List Cell × Int)) : Pairs :=
  rows.filterMap fun row => (env.pairOf row.1).map fun pair => (pair, row.2)

@[simp] theorem pairsOf_append (left right : List (List Cell × Int)) :
    env.pairsOf (left ++ right) = env.pairsOf left ++ env.pairsOf right :=
  filterMap_append

def decimalValue : Option Value → Option Int64
  | some (.decimal128 _ _ value) => some (Int64.ofInt value)
  | _ => some 0

/-- What the value column holds in a slot: a NULL of a decimal or of a double column reads as a
valid zero. -/
def valueSlot (dataType : DataType) (cell : Cell) : Option Int64 :=
  match dataType with
  | .int64 => cell.get.bind int64Value
  | .decimal128 _ _ => decimalValue cell.get
  | dataType =>
    match env.castInt64 dataType with
    | some cast => cell.get.bind cast
    | none => (env.castFloat64 dataType).map fun cast => (cell.get.bind cast).getD 0

variable {env}

theorem keyColumn_eq_ok {keys : List (Option Int64)}
    (typed : ∀ cell ∈ cells, cell.raw.dataType = dataType)
    (read : env.keyColumn dataType cells = .ok keys) :
    keys = cells.map fun cell => cell.get.bind env.readKey := by
  have agree : ∀ convert : Value → Option Int64,
      (∀ value, value.dataType = dataType → convert value = env.readKey value) →
      converted convert cells = cells.map fun cell => cell.get.bind env.readKey := by
    intro convert same
    refine map_congr_left fun cell mem => ?_
    unfold Cell.get
    split
    · exact same cell.raw (typed cell mem)
    · rfl
  unfold keyColumn at read
  split at read
  · cases read
    refine agree _ fun value isInt64 => ?_
    cases value <;> first | rfl | cases isInt64
  · next notInt64 =>
    split at read
    · next cast castable =>
      cases read
      refine agree _ fun value isType => ?_
      cases value with
      | int64 value => exact absurd isType.symm notInt64
      | _ => simp [readKey, isType, castable]
    · cases read

theorem decimalSlot_eq_ok {precision : Nat} {scale : Int} {slot : Option Int64}
    (read : decimalSlot cell = .ok slot) :
    slot = env.valueSlot (.decimal128 precision scale) cell := by
  show slot = decimalValue cell.get
  unfold decimalSlot at read
  split at read
  · next value isDecimal =>
    rw [isDecimal]
    split at read <;> cases read
    rfl
  · next notDecimal =>
    cases read
    unfold decimalValue
    split
    · next value isDecimal => exact absurd isDecimal (notDecimal _ _ _)
    · rfl

theorem valueColumn_eq_ok {values : List (Option Int64)}
    (read : env.valueColumn dataType cells = .ok values) :
    values = cells.map (env.valueSlot dataType) := by
  unfold valueColumn at read
  split at read
  · cases read
    rfl
  · exact eq_map_of_mapM_eq_ok (fun cell slot => decimalSlot_eq_ok) read
  · next notInt64 notDecimal =>
    have slots : env.valueSlot dataType = fun cell =>
        match env.castInt64 dataType with
        | some cast => cell.get.bind cast
        | none => (env.castFloat64 dataType).map fun cast => (cell.get.bind cast).getD 0 := by
      unfold valueSlot
      split
      · exact absurd rfl notInt64
      · exact absurd rfl (notDecimal _ _)
      · rfl
    rw [slots]
    cases toInt64 : env.castInt64 dataType with
    | some cast =>
      rw [toInt64] at read
      cases read
      rfl
    | none =>
      rw [toInt64] at read
      cases toFloat64 : env.castFloat64 dataType with
      | some cast =>
        rw [toFloat64] at read
        cases read
        rfl
      | none =>
        rw [toFloat64] at read
        cases read

theorem valueSlot_of_valid (typed : cell.raw.dataType = dataType) (valid : cell.valid = true) :
    env.valueSlot dataType cell = cell.get.bind env.readValue := by
  have present : cell.get = some cell.raw := by simp [Cell.get, valid]
  subst typed
  unfold valueSlot
  rw [present, Option.bind_some]
  cases raw : cell.raw with
  | int64 value => rfl
  | decimal128 precision scale value => rfl
  | utf8 value =>
    simp only [Value.dataType, readValue, Option.bind_some]
  | other name value =>
    simp only [Value.dataType, readValue, Option.bind_some]

/-- The rows that the loop reads, in closed form. -/
def inputOf (env : AggregateEnv) (valueType : DataType) (row : List Cell × Int) : AggregateInput :=
  ⟨(row.1.getD 0 (Cell.ofInt64? none)).get.bind env.readKey,
    env.valueSlot valueType (row.1.getD 1 (Cell.ofInt64? none)),
    (row.1.getD 1 (Cell.ofInt64? none)).valid, row.2⟩

theorem pairs_inputOf {valueType : DataType} {row : List Cell × Int}
    (typed : (row.1.getD 1 (Cell.ofInt64? none)).raw.dataType = valueType) :
    (env.inputOf valueType row).pairs =
      ((env.pairOf row.1).map fun pair => (pair, row.2)).toList := by
  unfold AggregateInput.pairs inputOf pairOf
  generalize (row.1.getD 0 (Cell.ofInt64? none)).get.bind env.readKey = key
  generalize row.1.getD 1 (Cell.ofInt64? none) = cell at typed
  cases valid : cell.valid with
  | true =>
    rw [valueSlot_of_valid typed valid]
    generalize cell.get.bind env.readValue = value
    cases key <;> cases value <;> rfl
  | false =>
    have null : cell.get = none := by simp [Cell.get, valid]
    rw [null]
    cases key <;> simp

theorem flatMap_pairs_of_inputs {delta : ArrowZSet} (read : env.inputs delta = .ok inputs) :
    inputs.flatMap AggregateInput.pairs = env.pairsOf delta.rows := by
  unfold AggregateEnv.inputs at read
  split at read
  · next keyField valueField rest fields =>
    have conforms := delta.conforms
    rw [fields] at conforms
    obtain ⟨keys, keysRead, read⟩ := bind_eq_ok.mp read
    obtain ⟨values, valuesRead, read⟩ := bind_eq_ok.mp read
    cases read
    have keyTyped : ∀ cell ∈ delta.rows.map fun row => row.1.getD 0 (Cell.ofInt64? none),
        cell.raw.dataType = keyField.dataType := by
      intro cell mem
      obtain ⟨⟨cells, weight⟩, inside, rfl⟩ := mem_map.mp mem
      obtain ⟨cell, rest, admits, _, rfl⟩ := forall₂_cons_left_iff.mp (conforms _ inside)
      exact admits.1
    have valueTyped : ∀ row ∈ delta.rows,
        (row.1.getD 1 (Cell.ofInt64? none)).raw.dataType = valueField.dataType := by
      rintro ⟨cells, weight⟩ inside
      obtain ⟨_, rest, _, conformsRest, rfl⟩ :=
        forall₂_cons_left_iff.mp (conforms _ inside)
      obtain ⟨cell, _, admits, _, rfl⟩ := forall₂_cons_left_iff.mp conformsRest
      exact admits.1
    rw [keyColumn_eq_ok keyTyped keysRead, valueColumn_eq_ok valuesRead]
    have closed : delta.rows.map (env.inputOf valueField.dataType) =
        zipWith (fun (slots : Option Int64 × Option Int64) (row : Bool × Int) =>
            (⟨slots.1, slots.2, row.1, row.2⟩ : AggregateInput))
          (((delta.rows.map fun row => row.1.getD 0 (Cell.ofInt64? none)).map
              fun cell => cell.get.bind env.readKey).zip
            ((delta.rows.map fun row => row.1.getD 1 (Cell.ofInt64? none)).map
              (env.valueSlot valueField.dataType)))
          (delta.rows.map fun row => ((row.1.getD 1 (Cell.ofInt64? none)).valid, row.2)) := by
      rw [map_map, map_map, zip_map', zipWith_map, zipWith_self]
      rfl
    rw [← closed, flatMap_map, pairsOf, filterMap_eq_flatMap_toList]
    exact flatMap_congr fun row inside => pairs_inputOf (valueTyped row inside)
  · cases read

end AggregateEnv

end RockStream
