import RockStream.Aggregate.Group

/-!
Contract: GROUP BY batch equivalence over runs with persistence and eviction.

A run interleaves delta batches with persistence points. A persistence point writes the
records of the dirty groups, declares all groups clean, and may evict some; a later
batch reads an evicted group back. `Coherent` says where each group's state is found:
in memory, or, for a clean group of an operator with a store, in its record.

Owns:
- `Coherent`, and its preservation by a batch, by eviction and by persistence;
- `groupWeight`, the weight of a row in the batch result;
- `processDelta_batch`, the law of a run.

Does not own: concurrent batches between building and writing a record batch.
-/

namespace RockStream

open Lib Loop Weighted List HashMap Bytes

variable {state : AggregateState} {staged : StagedEpochAggregator} {shard : Shard} {row : Row}

namespace AggregateOp

variable {env : AggregateEnv} {key : Int64} {pairs : Pairs} {planned : List Planned}
  {op : AggregateOp} {order : List Int64}

structure Shard where
  state : AggregateState
  store : Store

def db (op : AggregateOp) (store : Store) : Option ShardReader :=
  if op.hasDb then some store.reader else none

/-- Every group's exact totals are represented in memory or, if it is clean, by its record. -/
structure Coherent (op : AggregateOp) (shard : Shard) (pairs : Pairs) : Prop where
  resident : ∀ key state, shard.state.entries.lookup key = some state →
    StateRepresents (some state) (groupSum pairs key) (groupCount pairs key)
  absent : ∀ key, shard.state.entries.lookup key = none →
    StateRepresents none (groupSum pairs key) (groupCount pairs key) ∨
      op.hasDb = true ∧ key ∉ shard.state.dirtyKeys
  stored : ∀ key, key ∉ shard.state.dirtyKeys → ∃ state,
    StateRepresents state (groupSum pairs key) (groupCount pairs key) ∧
      shard.store.lookup (op.stateKey key) = state.map encodeState

theorem coherent_new {store : Store} (noRecord : ∀ key, store.lookup (op.stateKey key) = none) :
    op.Coherent ⟨.new, store⟩ [] :=
  ⟨nofun, fun _ _ => .inl ⟨rfl, rfl⟩, fun key _ => ⟨none, ⟨rfl, rfl⟩, noRecord key⟩⟩

/-- The consolidation counters are not part of the groups. -/
theorem Coherent.measured (coherent : op.Coherent shard pairs) (groups bytes : Nat) :
    op.Coherent ⟨{ shard.state with
      lastConsolidationGroups := groups, lastConsolidationBytes := bytes }, shard.store⟩ pairs :=
  ⟨coherent.resident, coherent.absent, coherent.stored⟩

/-! ## Records -/

theorem stateKey_injective (op : AggregateOp) (left right : Int64)
    (same : op.stateKey left = op.stateKey right) : left = right :=
  ofInt64_injective (by simpa [stateKey, ShardKeyEncoder.encode] using same)

theorem decodeState_encodeState {state : GroupState} {sum count : Int}
    (holds : StateRepresents (some state) sum count) :
    decodeState (encodeState state) = some state := by
  have live : liveState state = some state := holds.liveState_getD
  have front : (encodeState state).take 8 = ofInt64 state.1 :=
    take_left' (ofInt64_length state.1)
  have back : ((encodeState state).drop 8).take 8 = ofInt64 state.2 := by
    rw [encodeState, drop_left' (ofInt64_length state.1)]
    exact take_of_length_le (by simp)
  have width : 16 ≤ (encodeState state).length := by simp [encodeState]
  rw [decodeState, if_pos width, front, back, toInt64_ofInt64, toInt64_ofInt64]
  exact live

theorem lookup_apply_encodeStateMutation (op : AggregateOp) (store : Store) (key : Int64)
    (state : Option GroupState) (query : Bytes) :
    (store.apply (op.encodeStateMutation key state)).lookup query =
      if query = op.stateKey key then state.map encodeState else store.lookup query := by
  cases state with
  | some state => exact lookup_insert_eq store _ query _
  | none => exact lookup_erase_eq store _ query

/-! ## Planning -/

section Batch

variable {added : Pairs}

/-- The demand load of a clean group outside memory reads its record, if a store is attached. -/
theorem demandLoad_record {state : Option GroupState} {sum count : Int}
    (outside : shard.state.entries.lookup key = none) (clean : key ∉ shard.state.dirtyKeys)
    (holds : StateRepresents state sum count)
    (record : shard.store.lookup (op.stateKey key) = state.map encodeState) :
    op.demandLoad (op.db shard.store) shard.state key = .ok (if op.hasDb then state else none) := by
  unfold demandLoad db
  simp only [outside, clean, Option.isSome_none, Bool.false_eq_true, or_self, if_false]
  cases op.hasDb with
  | false => rfl
  | true =>
    simp only [if_true, Store.reader, record]
    cases state with
    | none => rfl
    | some state => exact congrArg _ (decodeState_encodeState holds)

/-- The state that planning starts from represents the group's totals, wherever it is found. -/
theorem Coherent.demandLoad (coherent : op.Coherent shard pairs) (key : Int64) :
    ∃ loaded, op.demandLoad (op.db shard.store) shard.state key = .ok loaded ∧
      StateRepresents ((shard.state.entries.lookup key).or loaded) (groupSum pairs key)
        (groupCount pairs key) ∧
      (loaded.isSome = true → shard.state.entries.lookup key = none) := by
  cases found : shard.state.entries.lookup key with
  | some state =>
    refine ⟨none, ?_, coherent.resident key state found, nofun⟩
    simp only [AggregateOp.demandLoad, found, Option.isSome_some, true_or, if_true]
  | none =>
    simp only [Option.none_or, implies_true, and_true]
    by_cases dirty : key ∈ shard.state.dirtyKeys
    · refine ⟨none, ?_, (coherent.absent key found).resolve_right fun spilled => spilled.2 dirty⟩
      simp only [AggregateOp.demandLoad, dirty, or_true, if_true]
    · obtain ⟨state, holds, record⟩ := coherent.stored key dirty
      refine ⟨_, demandLoad_record found dirty holds record, ?_⟩
      cases hasDb : op.hasDb with
      | true => exact holds
      | false =>
        exact (coherent.absent key found).resolve_right fun spilled => by
          rw [hasDb] at spilled
          cases spilled.1

structure Planned.Plans (planned : Planned) (state : AggregateState) (pairs added : Pairs)
    (key : Int64) : Prop where
  moves : planned.transition.Moves key ((state.entries.lookup key).or planned.demandLoaded)
    (groupSum (pairs ++ added) key) (groupCount (pairs ++ added) key)
  old : StateRepresents planned.transition.oldState (groupSum pairs key) (groupCount pairs key)
  cold : planned.demandLoaded.isSome = true → state.entries.lookup key = none

theorem planGroup_plans (coherent : op.Coherent shard pairs)
    (stages : staged.Stages added) {planned : Planned}
    (done : op.planGroup (op.db shard.store) shard.state staged key = .ok planned) :
    planned.Plans shard.state pairs added key := by
  obtain ⟨net, staged?, done⟩ := bind_eq_ok.mp done
  obtain ⟨loaded, read, done⟩ := bind_eq_ok.mp done
  obtain ⟨transition, moved, done⟩ := bind_eq_ok.mp done
  cases done
  obtain ⟨_, isLoaded, holds, cold⟩ := coherent.demandLoad key
  cases isLoaded.symm.trans read
  have isNet : net = (groupSum added key, groupCount added key) := by
    have totals := stages.net key
    unfold StagedEpochAggregator.net at staged?
    split at staged?
    · next found =>
      cases staged?
      rw [found] at totals
      exact totals
    · cases staged?
  have moves := planTransition_moves holds moved
  rw [isNet] at moves
  refine ⟨?_, ?_, cold⟩
  · rw [groupSum_append, groupCount_append]
    exact moves
  · rw [moves.sameOld]
    exact holds

/-! ## Installing a batch -/

structure PlansAll (state : AggregateState) (pairs added : Pairs) (order : List Int64)
    (planned : List Planned) : Prop where
  each : ∀ group ∈ planned, group.Plans state pairs added group.transition.key
  keys : planned.map (fun group => group.transition.key) = order
  distinct : order.Nodup
  untouched : ∀ key, key ∉ order → groupSum added key = 0 ∧ groupCount added key = 0

private theorem plans_of_forall₂
    (rel : List.Forall₂ (fun key group => Planned.Plans group state pairs added key)
      order planned) :
    (∀ group ∈ planned, group.Plans state pairs added group.transition.key) ∧
      planned.map (fun group => group.transition.key) = order := by
  induction rel with
  | nil => simp
  | cons plans _ ih =>
    have sameKey := plans.moves.sameKey
    rw [← sameKey] at plans
    refine ⟨?_, by rw [map_cons, sameKey, ih.2]⟩
    intro group mem
    rcases mem_cons.mp mem with rfl | inTail
    · exact plans
    · exact ih.1 group inTail

theorem plansAll_of_mapM (coherent : op.Coherent shard pairs) (stages : staged.Stages added)
    (done : staged.order.mapM (op.planGroup (op.db shard.store) shard.state staged) = .ok planned) :
    PlansAll shard.state pairs added staged.order planned := by
  obtain ⟨each, keys⟩ := plans_of_forall₂
    ((mapM_eq_ok.mp done).imp fun key group => planGroup_plans coherent stages)
  refine ⟨each, keys, stages.distinct, ?_⟩
  intro key unlisted
  have totals := stages.net key
  rw [stages.listed, Option.not_isSome_iff_eq_none] at unlisted
  rw [unlisted] at totals
  have both := Prod.ext_iff.mp totals
  exact ⟨both.1.symm, both.2.symm⟩

private theorem foldl_insertLoaded_entries (planned : List Planned) (state : AggregateState) :
    (planned.foldl insertLoaded state).entries =
      planned.foldl (fun entries group =>
        match group.demandLoaded with
        | some loaded => entries.insert group.transition.key loaded
        | none => entries) state.entries := by
  refine (foldl_hom AggregateState.entries fun state group => ?_).symm
  unfold insertLoaded
  cases group.demandLoaded <;> rfl

private theorem foldl_insertLoaded_dirtyKeys (planned : List Planned) (state : AggregateState) :
    (planned.foldl insertLoaded state).dirtyKeys = state.dirtyKeys := by
  induction planned generalizing state with
  | nil => rfl
  | cons group planned ih =>
    rw [foldl_cons, ih]
    unfold insertLoaded
    cases group.demandLoaded <;> rfl

private theorem lookup_install (entries : HashMap Int64 GroupState) (transition : GroupTransition)
    (query : Int64) : (install entries transition).lookup query = if query = transition.key then
        if transition.changed then transition.newState else entries.lookup query
      else entries.lookup query := by
  unfold install
  by_cases changed : transition.changed = true
  · cases new : transition.newState with
    | some next => simp [changed, lookup_insert_eq]
    | none => simp [changed, lookup_erase_eq]
  · simp [changed]

def installed (planned : List Planned) (state : AggregateState) : AggregateState :=
  { planned.foldl insertLoaded state with
    entries := (planned.map (·.transition)).foldl install (planned.foldl insertLoaded state).entries
    dirtyKeys := (((planned.map (·.transition)).filter (·.changed)).map (·.key)).foldl
      (fun keys key => keys.insert key) (planned.foldl insertLoaded state).dirtyKeys }

/-- The arrangement after a batch: each planned group has its new state, the others are as they
were. -/
theorem PlansAll.lookup_installed (plans : PlansAll state pairs added order planned) :
    (∀ group ∈ planned, (installed planned state).entries.lookup group.transition.key =
        group.transition.newState) ∧ ∀ key, key ∉ order →
      (installed planned state).entries.lookup key = state.entries.lookup key := by
  have distinct : (planned.map fun group => group.transition.key).Nodup := by
    rw [plans.keys]
    exact plans.distinct
  have loads := lookup_foldl
    (fun entries (group : Planned) =>
      match group.demandLoaded with
      | some loaded => entries.insert group.transition.key loaded
      | none => entries)
    (fun group => group.transition.key) (fun group old => group.demandLoaded.or old)
    (fun entries group query => by
      cases loaded : group.demandLoaded with
      | some loaded => simp [lookup_insert_eq]
      | none => simp)
    distinct state.entries
  have installs := lookup_foldl install GroupTransition.key
    (fun transition old => if transition.changed then transition.newState else old)
    lookup_install
    (show ((planned.map (·.transition)).map GroupTransition.key).Nodup by rwa [map_map])
    (planned.foldl insertLoaded state).entries
  unfold installed
  rw [foldl_insertLoaded_entries] at installs ⊢
  constructor
  · intro group mem
    have groupPlans := plans.each group mem
    rw [installs.1 group.transition (mem_map_of_mem mem), loads.1 group mem]
    split
    · rfl
    · next unchanged =>
      rw [groupPlans.moves.unchanged (by simpa using unchanged), groupPlans.moves.sameOld]
      -- A demand-loaded group was not in memory.
      cases loaded : group.demandLoaded with
      | none => simp
      | some state => rw [groupPlans.cold (by simp [loaded])]; rfl
  · intro key unlisted
    rw [← plans.keys] at unlisted
    rw [installs.2 key (by simpa using unlisted), loads.2 key unlisted]

private theorem mem_foldl_insert (added keys : List Int64) (key : Int64) :
    key ∈ added.foldl (fun keys key => keys.insert key) keys ↔ key ∈ keys ∨ key ∈ added := by
  induction added generalizing keys with
  | nil => simp
  | cons head tail ih =>
    rw [foldl_cons, ih, mem_insert_iff, mem_cons]
    tauto

theorem mem_dirtyKeys_installed (planned : List Planned) (state : AggregateState) (key : Int64) :
    key ∈ (installed planned state).dirtyKeys ↔ key ∈ state.dirtyKeys ∨
      ∃ group ∈ planned, group.transition.changed = true ∧ group.transition.key = key := by
  simp only [installed, mem_foldl_insert, foldl_insertLoaded_dirtyKeys, mem_map, mem_filter,
    and_assoc, exists_exists_and_eq_and]

theorem Coherent.installed (coherent : op.Coherent shard pairs)
    (plans : PlansAll shard.state pairs added order planned) :
    op.Coherent ⟨installed planned shard.state, shard.store⟩ (pairs ++ added) := by
  obtain ⟨movedLookup, otherLookup⟩ := plans.lookup_installed
  have listed : ∀ key ∈ order, ∃ group ∈ planned, group.transition.key = key := by
    intro key mem
    rw [← plans.keys] at mem
    exact mem_map.mp mem
  have still : ∀ {key state}, key ∉ order →
      StateRepresents state (groupSum pairs key) (groupCount pairs key) →
      StateRepresents state (groupSum (pairs ++ added) key) (groupCount (pairs ++ added) key) := by
    intro key state unlisted holds
    obtain ⟨noSum, noCount⟩ := plans.untouched key unlisted
    simpa [noSum, noCount] using holds
  constructor
  · intro key state found
    by_cases mem : key ∈ order
    · obtain ⟨group, inside, rfl⟩ := listed key mem
      rw [← (movedLookup group inside).symm.trans found]
      exact (plans.each group inside).moves.new
    · exact still mem (coherent.resident key state ((otherLookup key mem).symm.trans found))
  · intro key found
    by_cases mem : key ∈ order
    · obtain ⟨group, inside, rfl⟩ := listed key mem
      rw [← (movedLookup group inside).symm.trans found]
      exact .inl (plans.each group inside).moves.new
    · refine (coherent.absent key ((otherLookup key mem).symm.trans found)).imp (still mem) ?_
      rintro ⟨hasDb, clean⟩
      refine ⟨hasDb, fun dirty => ?_⟩
      rcases (mem_dirtyKeys_installed planned _ key).mp dirty with before | ⟨group, inside, _, rfl⟩
      · exact clean before
      · exact mem (by rw [← plans.keys]; exact mem_map_of_mem inside)
  · intro key clean
    rw [mem_dirtyKeys_installed, not_or] at clean
    obtain ⟨state, holds, record⟩ := coherent.stored key clean.1
    refine ⟨state, ?_, record⟩
    by_cases mem : key ∈ order
    · obtain ⟨group, inside, rfl⟩ := listed key mem
      have unchanged : group.transition.changed = false := by
        by_contra changed
        exact clean.2 ⟨group, inside, by simpa using changed, rfl⟩
      have groupPlans := plans.each group inside
      have new := groupPlans.moves.new
      rw [groupPlans.moves.unchanged unchanged, groupPlans.old.unique holds] at new
      exact new
    · exact still mem holds

end Batch

/-! ## Eviction and persistence -/

theorem lookup_evict (limit : Nat) (dirtyKeys : List Int64) (entries : HashMap Int64 GroupState)
    (cleanLru : List Int64) (key : Int64) :
    (evict limit dirtyKeys entries cleanLru).1.lookup key = entries.lookup key ∨
      (evict limit dirtyKeys entries cleanLru).1.lookup key = none ∧ key ∉ dirtyKeys := by
  induction cleanLru generalizing entries with
  | nil => exact .inl rfl
  | cons cold cleanLru ih =>
    rw [evict]
    split
    · split
      · exact ih entries
      · next clean =>
        rcases ih (entries.erase cold) with same | gone
        · rw [same, lookup_erase_eq]
          split
          · next isCold =>
            subst isCold
            exact .inr ⟨rfl, clean⟩
          · exact .inl rfl
        · exact .inr gone
    · exact .inl rfl

theorem Coherent.evictOver {store : Store} (coherent : op.Coherent ⟨state, store⟩ pairs) :
    op.Coherent ⟨op.evictOver state, store⟩ pairs := by
  unfold AggregateOp.evictOver
  split
  · next evicts =>
    have lookups := lookup_evict op.maxStateBytes state.dirtyKeys state.entries state.cleanLru
    refine ⟨fun key group found => ?_, fun key found => ?_, coherent.stored⟩
    · rcases lookups key with same | gone
      · exact coherent.resident key group (same.symm.trans found)
      · cases gone.1.symm.trans found
    · rcases lookups key with same | gone
      · exact coherent.absent key (same.symm.trans found)
      · exact .inr ⟨evicts.2, gone.2⟩
  · exact coherent

/-- A persistence point: the dirty groups' records are written, then the groups declared clean. -/
def persist (op : AggregateOp) (order : DirtyOrder) (shard : Shard) : Shard :=
  ⟨op.clearDirtyKeys order shard.state, shard.store.writeBatch (op.appendAggState shard.state)⟩

theorem Coherent.persist (coherent : op.Coherent shard pairs) (order : DirtyOrder) :
    op.Coherent (op.persist order shard) pairs := by
  have written := Store.lookup_writeBatch_map op.stateKey_injective
    (fun store key query => op.lookup_apply_encodeStateMutation store key
      (shard.state.entries.lookup key) query)
    shard.store (shard.state.dirtyKeys.insertionSort (· ≤ ·))
  have dirtyHolds : ∀ key ∈ shard.state.dirtyKeys,
      StateRepresents (shard.state.entries.lookup key) (groupSum pairs key)
        (groupCount pairs key) := by
    intro key dirty
    cases found : shard.state.entries.lookup key with
    | some state => exact coherent.resident key state found
    | none =>
      exact (coherent.absent key found).resolve_right fun spilled => spilled.2 dirty
  refine Coherent.evictOver ⟨coherent.resident, fun key found => ?_, fun key _ => ?_⟩
  · exact (coherent.absent key found).imp id fun spilled => ⟨spilled.1, by simp⟩
  · by_cases dirty : key ∈ shard.state.dirtyKeys
    · refine ⟨shard.state.entries.lookup key, dirtyHolds key dirty, (written key).trans ?_⟩
      rw [if_pos ((mem_insertionSort _).mpr dirty)]
    · obtain ⟨state, holds, record⟩ := coherent.stored key dirty
      refine ⟨state, holds, (written key).trans ?_⟩
      rw [if_neg fun sorted => dirty ((mem_insertionSort _).mp sorted)]
      exact record

/-! ## What a batch emits -/

def rowKey : Row → Option Int64
  | some (.int64 key) :: _ => some key
  | _ => none

/-- The weight of a row in the batch result: one row per group with a positive count, which carries
the group's exact sum and count and their quotient. -/
def groupWeight (env : AggregateEnv) (pairs : Pairs) (row : Row) : Int :=
  match row with
  | [some (.int64 key), some (.int64 sum), some (.int64 count), some avg] =>
    if 0 < groupCount pairs key ∧ sum.toInt = groupSum pairs key ∧
        count.toInt = groupCount pairs key ∧ avg = .other "Float64" (env.avg sum count) then 1
    else 0
  | _ => 0

def indicator (env : AggregateEnv) (key : Int64) (state : Option GroupState) (row : Row) : Int :=
  match state with
  | some state => if (outputRow env key state).map Cell.get = row then 1 else 0
  | none => 0

private theorem outputRow_get (env : AggregateEnv) (key : Int64) (state : GroupState) :
    (outputRow env key state).map Cell.get =
      [some (.int64 key), some (.int64 state.1), some (.int64 state.2),
        some (.other "Float64" (env.avg state.1 state.2))] := rfl

theorem indicator_eq_zero {state : Option GroupState}
    (otherKey : rowKey row ≠ some key) : indicator env key state row = 0 := by
  cases state with
  | none => rfl
  | some state =>
    rw [indicator, outputRow_get, if_neg]
    rintro rfl
    exact otherKey rfl

theorem groupWeight_eq_zero (noKey : rowKey row = none) : groupWeight env pairs row = 0 := by
  unfold groupWeight
  split
  · cases noKey
  · rfl

/-- The batch result for a group depends on its totals only. -/
theorem groupWeight_congr {left right : Pairs} (hasKey : rowKey row = some key)
    (sameSum : groupSum left key = groupSum right key)
    (sameCount : groupCount left key = groupCount right key) :
    groupWeight env left row = groupWeight env right row := by
  unfold groupWeight
  split
  · cases hasKey
    rw [sameSum, sameCount]
  · rfl

/-- The batch result has, for a group, exactly the output row of the state that represents it. -/
theorem groupWeight_eq_indicator {state : Option GroupState}
    (holds : StateRepresents state (groupSum pairs key) (groupCount pairs key))
    (hasKey : rowKey row = some key) : groupWeight env pairs row = indicator env key state row := by
  unfold groupWeight
  split
  · next rowKey sum count avg =>
    cases hasKey
    cases state with
    | none =>
      rw [indicator, if_neg]
      rintro ⟨positive, _⟩
      rw [holds.2] at positive
      exact absurd positive (by simp)
    | some state =>
      obtain ⟨exactSum, exactCount, positive⟩ := holds
      rw [indicator, outputRow_get]
      refine if_congr ?_ rfl rfl
      rw [← exactCount] at positive
      simp only [← exactSum, ← exactCount, Int64.toInt_inj, true_and, cons.injEq,
        Option.some.injEq, Value.int64.injEq, and_true]
      constructor
      · rintro ⟨_, rfl, rfl, rfl⟩
        exact ⟨rfl, rfl, rfl⟩
      · rintro ⟨rfl, rfl, rfl⟩
        exact ⟨positive, rfl, rfl, rfl⟩
  · next notOutput =>
    cases state with
    | none => rfl
    | some state =>
      rw [indicator, outputRow_get, if_neg]
      rintro rfl
      exact notOutput _ _ _ _ rfl

theorem weight_outputRows (env : AggregateEnv) {transition : GroupTransition}
    (unchanged : transition.changed = false → transition.newState = transition.oldState)
    (row : Row) : weight (denote (outputRows env transition)) row =
      indicator env transition.key transition.newState row -
        indicator env transition.key transition.oldState row := by
  unfold outputRows
  cases changed : transition.changed with
  | false =>
    rw [unchanged changed]
    simp [denote]
  | true =>
    cases transition.oldState <;> cases transition.newState <;>
      simp [denote, indicator, apply_ite Neg.neg, sub_eq_neg_add]

section Emit

variable {added : Pairs}

/-- The emitted weight of a row is its change in the batch result. -/
theorem PlansAll.weight_outputs (env : AggregateEnv)
    (plans : PlansAll state pairs added order planned)
    (row : Row) : weight (denote ((planned.map (·.transition)).flatMap (outputRows env))) row =
      groupWeight env (pairs ++ added) row - groupWeight env pairs row := by
  -- Only the group of the row's own key emits it.
  have each : ∀ group ∈ planned, weight (denote (outputRows env group.transition)) row =
      if rowKey row = some group.transition.key then
        groupWeight env (pairs ++ added) row - groupWeight env pairs row else 0 := by
    intro group mem
    have groupPlans := plans.each group mem
    rw [weight_outputRows env groupPlans.moves.unchanged]
    split
    · next hasKey =>
      rw [groupWeight_eq_indicator groupPlans.moves.new hasKey,
        groupWeight_eq_indicator groupPlans.old hasKey]
    · next otherKey => rw [indicator_eq_zero otherKey, indicator_eq_zero otherKey, sub_self]
  have total : weight (denote ((planned.map (·.transition)).flatMap (outputRows env))) row =
      (order.map fun key => if rowKey row = some key then
        groupWeight env (pairs ++ added) row - groupWeight env pairs row else 0).sum := by
    rw [← plans.keys, flatMap_map, denote, map_flatMap, weight, integrate_flatMap,
      map_map]
    congr 1
    exact map_congr_left each
  rw [total]
  cases hasKey : rowKey row with
  | none =>
    rw [groupWeight_eq_zero hasKey, groupWeight_eq_zero hasKey]
    simp
  | some key =>
    rw [sum_map_eq_nsmul_single key _ fun other ne _ =>
      if_neg fun same => ne (Option.some.inj same).symm]
    by_cases mem : key ∈ order
    · rw [count_eq_one_of_mem plans.distinct mem, one_nsmul, if_pos rfl]
    · obtain ⟨noSum, noCount⟩ := plans.untouched key mem
      have same : groupWeight env (pairs ++ added) row = groupWeight env pairs row :=
        groupWeight_congr hasKey (by simp [noSum]) (by simp [noCount])
      rw [count_eq_zero_of_not_mem mem, zero_nsmul, same, sub_self]

end Emit

theorem buildOutput_eq_ok {transitions : List GroupTransition} {output : ArrowZSet}
    (built : buildOutput env transitions = .ok output) :
    output.rows = transitions.flatMap (outputRows env) := by
  unfold buildOutput at built
  split at built
  · next noRows =>
    rw [isEmpty_iff.mp noRows]
    cases built
    rfl
  · exact (ArrowZSet.tryNew_eq_ok built).2

/-! ## One batch -/

/-- A successful batch emits the change of the batch result and keeps the state coherent. -/
theorem processDeltaWithResult_spec {delta : ArrowZSet} {result : EpochResult}
    {next : AggregateState} (coherent : op.Coherent shard pairs)
    (done : op.processDeltaWithResult env (op.db shard.store) shard.state delta =
      .ok (result, next)) :
    op.Coherent ⟨next, shard.store⟩ (pairs ++ env.pairsOf delta.rows) ∧
      ∀ row, weight result.outputDelta.valued row =
        groupWeight env (pairs ++ env.pairsOf delta.rows) row - groupWeight env pairs row := by
  unfold processDeltaWithResult at done
  split at done
  · next noRows =>
    have hollow : env.pairsOf delta.rows = [] := by
      rw [isEmpty_iff.mp noRows]
      rfl
    cases done
    rw [hollow, append_nil]
    exact ⟨coherent, fun row => by simp [ArrowZSet.valued, denote]⟩
  · obtain ⟨inputs, read, done⟩ := bind_eq_ok.mp done
    obtain ⟨staged, ingested, done⟩ := bind_eq_ok.mp done
    obtain ⟨planned, mapped, done⟩ := bind_eq_ok.mp done
    obtain ⟨output, built, done⟩ := bind_eq_ok.mp done
    rw [Exec.within_eq_ok] at read ingested mapped built
    cases done
    have stages := StagedEpochAggregator.stages_of_foldlM ingested
    rw [AggregateEnv.flatMap_pairs_of_inputs read] at stages
    have measured := coherent.measured (size staged.entries) staged.estimatedBytes
    have plans := plansAll_of_mapM measured stages mapped
    refine ⟨(measured.installed plans).evictOver, fun row => ?_⟩
    rw [← plans.weight_outputs env row, ArrowZSet.valued, buildOutput_eq_ok built]

/-! ## Runs -/

/-- What happens to a shard: a batch is processed, or the dirty groups are persisted. -/
inductive Event where
  | delta (batch : ArrowZSet)
  | persist (order : DirtyOrder)

def Event.rows : Event → List (List Cell × Int)
  | .delta batch => batch.rows
  | .persist _ => []

def step (op : AggregateOp) (env : AggregateEnv) (shard : Shard) :
    Event → Step Shard (List (Row × Int) × Shard)
  | .delta batch =>
    match op.processDeltaWithResult env (op.db shard.store) shard.state batch with
    | .ok (result, state) => .ok (result.outputDelta.valued, { shard with state := state })
    | .error (fault, state) => .error (fault, { shard with state := state })
  | .persist order => .ok ([], op.persist order shard)

def inputPairs (env : AggregateEnv) (events : List Event) : Pairs :=
  env.pairsOf (events.flatMap Event.rows)

structure RunInvariant (op : AggregateOp) (env : AggregateEnv) (events : List Event)
    (outputs : List (List (Row × Int))) (shard : Shard) : Prop where
  coherent : op.Coherent shard (inputPairs env events)
  law : ∀ row, weight outputs.flatten row = groupWeight env (inputPairs env events) row

theorem runInvariant_step {events : List Event} {outputs : List (List (Row × Int))} {next : Shard}
    {event : Event} {output : List (Row × Int)} (inv : op.RunInvariant env events outputs shard)
    (stepped : op.step env shard event = .ok (output, next)) :
    op.RunInvariant env (events ++ [event]) (outputs ++ [output]) next := by
  have grows : inputPairs env (events ++ [event]) =
      inputPairs env events ++ env.pairsOf event.rows := by
    simp [inputPairs]
  cases event with
  | persist order =>
    cases stepped
    have still : inputPairs env (events ++ [.persist order]) = inputPairs env events :=
      grows.trans (append_nil _)
    refine ⟨?_, fun row => ?_⟩
    · rw [still]
      exact inv.coherent.persist order
    · rw [still, ← inv.law row]
      simp
  | delta batch =>
    simp only [step] at stepped
    split at stepped
    · next result state done =>
      cases stepped
      obtain ⟨coherent, emitted⟩ := processDeltaWithResult_spec inv.coherent done
      rw [Event.rows] at grows
      refine ⟨?_, fun row => ?_⟩
      · rw [grows]
        exact coherent
      · rw [grows, flatten_append, weight_append, inv.law row,
          flatten_singleton, emitted row]
        ring
    · cases stepped

/-- GROUP BY batch equivalence: after any successful run from the empty operator, the emitted rows
sum to one row of weight one per group with a positive count, with the group's exact aggregates. -/
theorem processDelta_batch (op : AggregateOp) (env : AggregateEnv) (store : Store)
    (events : List Event) (outputs : List (List (Row × Int))) (final : Shard)
    (noRecord : ∀ key, store.lookup (op.stateKey key) = none)
    (ran : Loop.run (op.step env) ⟨.new, store⟩ events = .ok (outputs, final)) (row : Row) :
    weight outputs.flatten row = groupWeight env (inputPairs env events) row := by
  have start : op.RunInvariant env [] [] ⟨.new, store⟩ := by
    refine ⟨coherent_new noRecord, fun row => ?_⟩
    rw [flatten_nil, weight_nil]
    unfold groupWeight
    split
    · rw [if_neg]
      rintro ⟨positive, _⟩
      exact lt_irrefl 0 positive
    · rfl
  exact (run_invariant (op.RunInvariant env)
    (fun _ _ _ _ _ _ invariant stepped => runInvariant_step invariant stepped) start ran).law row

/-! ## A run -/

/-- Limits under which two groups do not both stay in memory once they are clean. -/
def sampleOp : AggregateOp := ⟨7, 1000000, 67108864, 24, true⟩

/-- No casts; a quotient is shown by its operands. -/
def sampleEnv : AggregateEnv :=
  ⟨fun _ => none, fun _ => none, fun sum count => Bytes.ofInt64 sum ++ Bytes.ofInt64 count⟩

/-- Two groups, an eviction, an update of both groups of which one is read back, and a group that
vanishes; a retraction stands before the insertion it cancels. -/
def sampleEvents : List Event :=
  [.delta (ArrowZSet.ofPairs [((some 1, some 10), 1), ((some 2, some 5), 2)]),
    .persist ⟨id, .refl⟩,
    .delta (ArrowZSet.ofPairs [((some 1, some 4), -1), ((some 1, some 4), 1), ((some 1, some 3), 1),
      ((some 2, some 5), -2), ((some 3, none), 1)]),
    .persist ⟨reverse, reverse_perm⟩]

theorem processDelta_batch_sample : ∃ outputs final,
    Loop.run (sampleOp.step sampleEnv) ⟨.new, ∅⟩ sampleEvents = .ok (outputs, final) ∧
      ∀ row, weight outputs.flatten row =
        groupWeight sampleEnv (inputPairs sampleEnv sampleEvents) row := by
  exact exists_ok_of_isSome (by decide +kernel) fun outputs final =>
    processDelta_batch sampleOp sampleEnv ∅ sampleEvents outputs final fun _ => rfl

/-- A group whose only row has a NULL value has one accumulated row, and nothing is emitted. -/
theorem nullValue_row_not_counted : ∃ outputs final,
    Loop.run (sampleOp.step sampleEnv) ⟨.new, ∅⟩
      [.delta (ArrowZSet.ofPairs [((some 1, none), 1)])] =
        .ok (outputs, final) ∧ integrate (fun row => if rowKey row = some 1 then 1 else 0)
        (ArrowZSet.ofPairs [((some 1, none), 1)]).valued = 1 ∧ outputs.flatten = [] := by
  exact exists_ok (by decide +kernel)

end AggregateOp

end RockStream
