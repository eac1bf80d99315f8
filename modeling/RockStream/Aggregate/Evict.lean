import RockStream.Aggregate.Law

/-!
Contract: what a caller of the aggregate operator sees of eviction and of failures.

An operator that evicts clean groups and one that keeps every group are coherent with
the same input, so planning reads the same states for both.

Owns:
- the state that a failed batch leaves;
- `outcomes`, the answers of a run in which the memory limit changes between calls, and
  their independence of eviction.

Does not own: failed reads of the store.
-/

namespace RockStream

open Lib Loop List

namespace AggregateOp

variable {env : AggregateEnv} {op keep : AggregateOp} {shard kept : Shard} {pairs : Pairs}
  {state : AggregateState} {delta : ArrowZSet} {hasDb : Bool}

/-! ## Failed batches -/

theorem exists_buildOutput (env : AggregateEnv) (transitions : List GroupTransition) :
    ∃ output, buildOutput env transitions = .ok output := by
  unfold buildOutput
  split
  · exact ⟨_, rfl⟩
  · refine ⟨_, ArrowZSet.tryNew_of_conforms (by simp [outputSchema]) fun row mem => ?_⟩
    obtain ⟨transition, _, emitted⟩ := mem_flatMap.mp mem
    have isRow : ∃ state, outputRow env transition.key state = row.1 := by
      unfold outputRows at emitted
      split at emitted
      · rw [mem_append, mem_map, mem_map] at emitted
        rcases emitted with ⟨state, _, rfl⟩ | ⟨state, _, rfl⟩ <;> exact ⟨state, rfl⟩
      · cases emitted
    obtain ⟨state, isRow⟩ := isRow
    rw [← isRow]
    simp [Conforms, outputSchema, outputRow, Field.Admits, Cell.ofInt64, Value.dataType]

/-- A batch that fails changes no group and marks none. -/
theorem groups_of_failed {db : Option ShardReader} {fault : Fault} {left : AggregateState}
    (failed : op.processDeltaWithResult env db state delta = .error (fault, left)) :
    left.entries = state.entries ∧ left.dirtyKeys = state.dirtyKeys := by
  unfold processDeltaWithResult at failed
  split at failed
  · cases failed
  · rcases Exec.within_bind_eq_error failed with ⟨_, rfl⟩ | ⟨inputs, _, failed⟩
    · exact ⟨rfl, rfl⟩
    rcases Exec.within_bind_eq_error failed with ⟨_, rfl⟩ | ⟨staged, _, failed⟩
    · exact ⟨rfl, rfl⟩
    rcases Exec.within_bind_eq_error failed with ⟨_, rfl⟩ | ⟨planned, _, failed⟩
    · exact ⟨rfl, rfl⟩
    -- The output always can be built, and everything is installed after it.
    obtain ⟨output, built⟩ := exists_buildOutput env (planned.map (·.transition))
    simp only [commitPlanned, built] at failed
    cases failed

/-! ## Planning -/

/-- Planning finds the same state of a group, in memory or in its record. -/
theorem Coherent.planGroup_eq (evicts : op.Coherent shard pairs) (keeps : keep.Coherent kept pairs)
    (staged : StagedEpochAggregator) (key : Int64) :
    (op.planGroup (op.db shard.store) shard.state staged key).map (·.transition) =
      (keep.planGroup (keep.db kept.store) kept.state staged key).map (·.transition) := by
  obtain ⟨loaded, read, holds, _⟩ := evicts.demandLoad key
  obtain ⟨other, readOther, holdsOther, _⟩ := keeps.demandLoad key
  unfold planGroup
  rw [read, readOther]
  simp only [bind, Except.bind, holds.unique holdsOther]
  cases staged.net key with
  | error fault => rfl
  | ok net =>
    dsimp only
    generalize planTransition key (Option.getD _ _) net = moved
    cases moved with
    | error fault => rfl
    | ok transition => rfl

/-! ## Answers -/

/-- What a caller sees of a batch: the emitted batch or the failure. -/
def answer (call : Step AggregateState (EpochResult × AggregateState)) : Except Fault ArrowZSet :=
  match call with
  | .ok (result, _) => .ok result.outputDelta
  | .error (fault, _) => .error fault

theorem Coherent.answer_eq (evicts : op.Coherent shard pairs) (keeps : keep.Coherent kept pairs)
    (sameGroups : keep.maxGroups = op.maxGroups) (sameBytes : keep.maxBytes = op.maxBytes)
    (env : AggregateEnv) (delta : ArrowZSet) :
    answer (op.processDeltaWithResult env (op.db shard.store) shard.state delta) =
      answer (keep.processDeltaWithResult env (keep.db kept.store) kept.state delta) := by
  unfold processDeltaWithResult
  split
  · rfl
  cases env.inputs delta with
  | error fault => rfl
  | ok inputs =>
    show answer (op.processInputs env _ shard.state inputs) =
      answer (keep.processInputs env _ kept.state inputs)
    unfold processInputs
    rw [sameGroups, sameBytes]
    cases inputs.foldlM StagedEpochAggregator.ingestRow (.withLimits op.maxGroups op.maxBytes) with
    | error fault => rfl
    | ok staged =>
      have each :=
        (evicts.measured (HashMap.size staged.entries) staged.estimatedBytes).planGroup_eq
        (keeps.measured (HashMap.size staged.entries) staged.estimatedBytes) staged
      have planned := congrArg (staged.order.mapM ·) (funext each)
      rw [← map_mapM, ← map_mapM] at planned
      dsimp only [bind, Except.bind, Exec.within]
      generalize staged.order.mapM (op.planGroup _ _ staged) = first at planned
      generalize staged.order.mapM (keep.planGroup _ _ staged) = second at planned
      cases first with
      | error fault =>
        cases second with
        | error other =>
          cases planned
          rfl
        | ok second => cases planned
      | ok first =>
        cases second with
        | error fault => cases planned
        | ok second =>
          simp only [commitPlanned]
          rw [← Except.ok.inj planned]
          cases buildOutput env (first.map (·.transition)) <;> rfl

/-- The state that a batch leaves is coherent with the input that was taken. -/
theorem Coherent.left (coherent : op.Coherent shard pairs) (env : AggregateEnv)
    (delta : ArrowZSet) :
    let called := op.processDeltaWithResult env (op.db shard.store) shard.state delta
    op.Coherent ⟨Step.left called, shard.store⟩
      (if (answer called).isOk then pairs ++ env.pairsOf delta.rows else pairs) := by
  intro called
  cases done : called with
  | ok result => exact (processDeltaWithResult_spec coherent done).1
  | error failure =>
    obtain ⟨entries, dirty⟩ := groups_of_failed done
    exact ⟨entries ▸ coherent.resident, entries ▸ dirty ▸ coherent.absent, dirty ▸ coherent.stored⟩

/-! ## Runs -/

/-- A run in which each event finds the memory limit that is set at that time. A failed batch is
answered with its failure, and the run goes on. -/
def outcomes (op : AggregateOp) (env : AggregateEnv) (shard : Shard) :
    List (Nat × Event) → List (Option (Except Fault ArrowZSet))
  | [] => []
  | (limit, .persist order) :: events =>
    none :: op.outcomes env ({ op with maxStateBytes := limit }.persist order shard) events
  | (limit, .delta batch) :: events =>
    let called := { op with maxStateBytes := limit }.processDeltaWithResult env (op.db shard.store)
      shard.state batch
    some (answer called) :: op.outcomes env { shard with state := Step.left called } events

theorem Coherent.limited (coherent : op.Coherent shard pairs) (limit : Nat) :
    { op with maxStateBytes := limit }.Coherent shard pairs :=
  ⟨coherent.resident, coherent.absent, coherent.stored⟩

theorem Coherent.outcomes_eq (evicts : op.Coherent shard pairs)
    (keeps : { op with hasDb := hasDb }.Coherent kept pairs) (events : List (Nat × Event)) :
    op.outcomes env shard events =
      { op with hasDb := hasDb }.outcomes env kept (events.map (Prod.map (fun _ => 0) id)) := by
  induction events generalizing shard kept pairs with
  | nil => rfl
  | cons event events ih =>
    obtain ⟨limit, event⟩ := event
    have evicts := evicts.limited limit
    have keeps := keeps.limited 0
    cases event with
    | persist order =>
      exact congrArg _ (ih ((evicts.persist order).limited op.maxStateBytes)
        ((keeps.persist order).limited op.maxStateBytes))
    | delta batch =>
      have same := evicts.answer_eq keeps rfl rfl env batch
      have evictsLeft := evicts.left env batch
      dsimp only at evictsLeft
      rw [same] at evictsLeft
      exact congrArg₂ _ (congrArg some same) (ih (evictsLeft.limited op.maxStateBytes)
        ((keeps.left env batch).limited op.maxStateBytes))

/-- An operator that evicts clean groups whenever it is over a limit, and one that keeps all groups
in memory, answer every run alike. -/
theorem eviction_invisible (op : AggregateOp) (env : AggregateEnv) (hasDb : Bool) (store : Store)
    (events : List (Nat × Event)) (noRecord : ∀ key, store.lookup (op.stateKey key) = none) :
    op.outcomes env ⟨.new, store⟩ events =
      { op with hasDb := hasDb }.outcomes env ⟨.new, store⟩
        (events.map (Prod.map (fun _ => 0) id)) := by
  have keeps : { op with hasDb := hasDb }.Coherent ⟨.new, store⟩ [] := coherent_new noRecord
  exact (coherent_new noRecord).outcomes_eq keeps events

theorem eviction_invisible_sample :
    sampleOp.outcomes sampleEnv ⟨.new, ∅⟩ (sampleEvents.map (Prod.mk 24)) =
      { sampleOp with hasDb := false }.outcomes sampleEnv ⟨.new, ∅⟩
        ((sampleEvents.map (Prod.mk 24)).map (Prod.map (fun _ => 0) id)) :=
  eviction_invisible sampleOp sampleEnv false ∅ (sampleEvents.map (Prod.mk 24)) fun _ => rfl

end AggregateOp

end RockStream
