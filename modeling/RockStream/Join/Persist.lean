import RockStream.Arrangement.Persist
import RockStream.Join.Simulation

/-!
Contract: persistence of the inner join (`rockstream-ops/src/join.rs`).

`append_state` writes the rows changed since the last call, `load_from_storage` and
`restore_in_place` read both arrangements back. The records carry no weights, so the
round trip keeps exactly the states whose rows all have weight one.

Owns:
- `JoinCache`, a join with its attached database, `appendState`, `restoreInPlace` and
  `loadFromStorage`;
- histories of epochs, persists, restarts and writes of other operators, and the
  invariant that the store mirrors the arrangements throughout;
- when a restored join stands for the persisted one.

Does not own: demand loading of single keys.
-/

namespace RockStream

open Lib Loop ShardKeyEncoder Arrangement

variable {state : JoinState} {opId : UInt64} {arr : Arrangement}

variable {store : Store} {op : JoinOp}

/-- A `JoinOp` with its attached database and the keys it has loaded from it. -/
structure JoinCache where
  state : JoinState
  db : Option ShardScan
  stateLoaded : Bool
  loadedLeftKeys : HashSet Bytes
  loadedRightKeys : HashSet Bytes

def JoinCache.new : JoinCache := ⟨.new, none, false, ∅, ∅⟩

def JoinCache.setDb (cache : JoinCache) (db : ShardScan) : JoinCache :=
  { cache with db := some db, stateLoaded := false, loadedLeftKeys := ∅, loadedRightKeys := ∅ }

namespace JoinOp

def new (opId : UInt64) (leftKeyCols rightKeyCols : List Nat) : JoinOp :=
  ⟨opId, leftKeyCols, rightKeyCols, 2, 2⟩

/-- `append_state`: the mutations of the dirty rows, which become clean. -/
def appendState (op : JoinOp) (state : JoinState) : List StateMutation × JoinState :=
  (Arrangement.rowMutations .left op.opId state.leftArr state.dirtyLeft ++
    Arrangement.rowMutations .right op.opId state.rightArr state.dirtyRight,
    { state with dirtyLeft := ∅, dirtyRight := ∅ })

/-- `scan_prefix(..).map_err(OpError::storage)`. -/
def scanRecords (db : ShardScan) (start : Bytes) : Exec (List (Bytes × Bytes)) :=
  match db start with
  | .ok records => .ok records
  | .error detail => .error (.err (.storage detail))

/-- The shared body of the two restore functions. The bytes counter stays at zero. -/
def loadState (db : ShardScan) (opId : UInt64) : Exec JoinState := do
  let left ← scanRecords db (joinArrOpPrefix .left opId)
  let right ← scanRecords db (joinArrOpPrefix .right opId)
  pure { JoinState.new with
    leftArr := Arrangement.loadArr left, rightArr := Arrangement.loadArr right }

/-- `load_from_storage`: the key columns and widths are those of two-column inputs joined on their
first columns. -/
def loadFromStorage (db : ShardScan) (opId : UInt64) : Exec (JoinOp × JoinCache) := do
  let state ← loadState db opId
  pure (new opId [0] [0], ⟨state, some db, true, ∅, ∅⟩)

/-- `restore_in_place`: the arrangements are replaced; staged and dirty rows stay. -/
def restoreInPlace (op : JoinOp) (db : ShardScan) (cache : JoinCache) :
    Step JoinCache JoinCache := do
  let loaded ← Exec.within cache (loadState db op.opId)
  let state := { cache.state with
    leftArr := loaded.leftArr, rightArr := loaded.rightArr, stateBytes := loaded.stateBytes }
  pure { JoinCache.setDb { cache with state } db with
    stateLoaded := true, loadedLeftKeys := ∅, loadedRightKeys := ∅ }

/-- The state both restore functions read from a store. -/
def readBack (store : Store) (opId : UInt64) : JoinState :=
  { JoinState.new with
    leftArr := Arrangement.loadArr (store.under (joinArrOpPrefix .left opId))
    rightArr := Arrangement.loadArr (store.under (joinArrOpPrefix .right opId)) }

theorem restoreInPlace_new (op : JoinOp) (store : Store) : op.restoreInPlace store.scan .new =
      .ok ⟨readBack store op.opId, some store.scan, true, ∅, ∅⟩ := rfl

/-! ## Histories -/

/-- What happens to a join and its shard: an epoch, a persist, a restart of the process, or the
writes of others. -/
inductive Event where
  | epoch (deltas : ArrowZSet × ArrowZSet)
  | persist
  | restart
  | others (mutations : List StateMutation)

def Event.Elsewhere (opId : UInt64) : Event → Prop
  | .others mutations =>
    ∀ mutation ∈ mutations, ∀ side, ¬ joinArrOpPrefix side opId <+: mutation.key
  | _ => True

def handle (op : JoinOp) (current : JoinState × Store) :
    Event → Step JoinState (Option ArrowZSet × (JoinState × Store))
  | .epoch deltas => do
    let (output, next) ← op.processEpoch current.1 deltas
    pure (some output, (next, current.2))
  | .persist =>
    let (mutations, next) := op.appendState current.1
    pure (none, (next, current.2.writeBatch mutations))
  | .restart => pure (none, (readBack current.2 op.opId, current.2))
  | .others mutations => pure (none, (current.1, current.2.writeBatch mutations))

/-- The store has every clean row, and nothing is staged. -/
structure Durable (op : JoinOp) (state : JoinState) (store : Store) : Prop where
  left : Arrangement.Mirrors .left op.opId state.leftArr state.dirtyLeft store
  right : Arrangement.Mirrors .right op.opId state.rightArr state.dirtyRight store
  leftEmpty : state.leftStaged.rows = []
  rightEmpty : state.rightStaged.rows = []

/-- The store holds no record of the operator. -/
def Unwritten (opId : UInt64) (store : Store) : Prop :=
  ∀ side key, joinArrOpPrefix side opId <+: key → store.lookup key = none

theorem durable_new (unwritten : Unwritten op.opId store) : op.Durable .new store where
  left := fun row _ => unwritten .left _ (joinArrOpPrefix_isPrefix _ _ row.1 row.2)
  right := fun row _ => unwritten .right _ (joinArrOpPrefix_isPrefix _ _ row.1 row.2)
  leftEmpty := rfl
  rightEmpty := rfl

/-- An epoch marks what it changes. -/
theorem Durable.epoch {next : JoinState} {epoch : ArrowZSet × ArrowZSet}
    {output : ArrowZSet} (durable : op.Durable state store)
    (done : op.processEpoch state epoch = .ok (output, next)) : op.Durable next store := by
  have spec := processEpoch_eq_ok durable.leftEmpty durable.rightEmpty done
  obtain ⟨_, leftFinal, leftDrained, leftArr, leftDirty⟩ := spec.leftDrained
  obtain ⟨_, rightFinal, rightDrained, rightArr, rightDirty⟩ := spec.rightDrained
  refine ⟨?_, ?_, spec.leftEmpty, spec.rightEmpty⟩
  · rw [leftArr, leftDirty]
    exact durable.left.drain (Arranged.drained_of_drain leftDrained)
  · rw [rightArr, rightDirty]
    exact durable.right.drain (Arranged.drained_of_drain rightDrained)

private theorem lookup_writeBatch_otherSide {first second : JoinSide}
    {dirty : HashSet (Bytes × BitVec 128)} (apart : first ≠ second)
    {key : Bytes} (heads : joinArrOpPrefix second opId <+: key) :
    (store.writeBatch (rowMutations first opId arr dirty)).lookup key = store.lookup key := by
  refine store.lookup_writeBatch_of_ne fun mutation mem same => ?_
  subst same
  exact apart (joinArrOpPrefix_inj (isPrefix_of_mem_rowMutations mem) heads).1

theorem Durable.persist (durable : op.Durable state store) :
    op.Durable (op.appendState state).2 (store.writeBatch (op.appendState state).1) := by
  refine ⟨?_, ?_, durable.leftEmpty, durable.rightEmpty⟩
  · rw [appendState, Store.writeBatch_append]
    exact durable.left.write.of_lookup_eq fun key heads =>
      lookup_writeBatch_otherSide (by decide) heads
  · rw [appendState, Store.writeBatch_append]
    refine Arrangement.Mirrors.write ?_
    exact durable.right.of_lookup_eq fun key heads => lookup_writeBatch_otherSide (by decide) heads

private theorem mirrors_loadArr (side : JoinSide) (opId : UInt64) (store : Store)
    (dirty : HashSet (Bytes × BitVec 128)) : Arrangement.Mirrors side opId
      (loadArr (store.under (joinArrOpPrefix side opId))) dirty store := by
  intro row _
  rw [find_loadArr]
  cases store.lookup (joinArrKey side opId row.1 row.2) with
  | none => rfl
  | some bytes => simp [persisted]

theorem Durable.others {mutations : List StateMutation}
    (durable : op.Durable state store) (elsewhere : (Event.others mutations).Elsewhere op.opId) :
    op.Durable state (store.writeBatch mutations) := by
  have untouched : ∀ side key, joinArrOpPrefix side op.opId <+: key →
      (store.writeBatch mutations).lookup key = store.lookup key := by
    intro side key heads
    refine store.lookup_writeBatch_of_ne fun mutation mem same => ?_
    exact elsewhere mutation mem side (same ▸ heads)
  exact ⟨durable.left.of_lookup_eq (untouched .left), durable.right.of_lookup_eq (untouched .right),
    durable.leftEmpty, durable.rightEmpty⟩

theorem durable_run {stored : Store} {events : List Event} {outputs : List (Option ArrowZSet)}
    (unwritten : Unwritten op.opId store) (elsewhere : ∀ event ∈ events, event.Elsewhere op.opId)
    (ran : Loop.run op.handle (.new, store) events = .ok (outputs, (state, stored))) :
    op.Durable state stored := by
  refine run_invariant
    (fun done _ current => (∀ event ∈ done, event.Elsewhere op.opId) →
      op.Durable current.1 current.2)
    ?_ (fun _ => durable_new unwritten) ran elsewhere
  intro done _ current event output next held stepped stillElsewhere
  have durable := held fun other mem => stillElsewhere other (by simp [mem])
  cases event with
  | epoch deltas =>
    obtain ⟨⟨batch, after⟩, processed, ended⟩ := bind_eq_ok.mp stepped
    cases ended
    exact durable.epoch processed
  | persist =>
    cases stepped
    exact durable.persist
  | restart =>
    cases stepped
    exact ⟨mirrors_loadArr _ _ _ _, mirrors_loadArr _ _ _ _, rfl, rfl⟩
  | others mutations =>
    cases stepped
    exact durable.others (stillElsewhere _ (by simp))

/-! ## The round trip -/

/-- Both arrangements hold the same rows with the same weights, and every later run of one is
matched by a run of the other that emits the same rows. -/
structure StandsFor (op : JoinOp) (original : JoinState) (loaded : JoinOp) (restored : JoinState) :
    Prop where
  left : ∀ joinKey rowId,
    restored.leftArr.find joinKey rowId = original.leftArr.find joinKey rowId
  right : ∀ joinKey rowId,
    restored.rightArr.find joinKey rowId = original.rightArr.find joinKey rowId
  later : ∀ epochs, Simulates
    (fun result result' => List.Forall₂ ArrowZSet.Alike result.1 result'.1)
    (Loop.run op.processEpoch original epochs) (Loop.run loaded.processEpoch restored epochs)
  earlier : ∀ epochs,
    Simulates (fun result result' => List.Forall₂ ArrowZSet.Alike result.1 result'.1)
      (Loop.run loaded.processEpoch restored epochs) (Loop.run op.processEpoch original epochs)

def UnitWeights (state : JoinState) : Prop :=
  (∀ joinKey rowId row, state.leftArr.find joinKey rowId = some row → row.weight = 1) ∧
    ∀ joinKey rowId row, state.rightArr.find joinKey rowId = some row → row.weight = 1

theorem restored_eq_iff (stored : Option ArrRow) : (persisted stored).map (⟨·, 1⟩) = stored ↔
      ∀ row, stored = some row → row.weight = 1 := by
  cases stored with
  | none => simp [persisted]
  | some row =>
    simp only [persisted, Option.bind_some, Option.some.injEq, forall_eq']
    constructor
    · intro same
      split at same
      · have unchanged := Option.some.inj same
        rw [← unchanged]
      · cases same
    · intro isUnit
      rw [isUnit, if_pos one_pos, Option.map_some, ← isUnit]

theorem standsFor_of_agree {original restored : JoinState}
    (agree : original.AgreeOn (fun _ => True) restored) : op.StandsFor original op restored where
  left := fun joinKey rowId => (agree.left joinKey trivial rowId).symm
  right := fun joinKey rowId => (agree.right joinKey trivial rowId).symm
  later := fun _ => (run_simulates agree).weaken fun _ _ rel => rel.1
  earlier := fun _ => (run_simulates agree.symm).weaken fun _ _ rel => rel.1

private theorem find_loadArr_of_mirrors {side : JoinSide}
    (mirrors : Arrangement.Mirrors side opId arr ∅ store) (joinKey : Bytes) (rowId : BitVec 128) :
    (loadArr (store.under (joinArrOpPrefix side opId))).find joinKey rowId =
      (persisted (arr.find joinKey rowId)).map (⟨·, 1⟩) := by
  rw [find_loadArr, mirrors (joinKey, rowId) (AList.notMem_empty _)]

/-- Where the store mirrors a clean state, what is read back stands for it exactly when every
stored row has weight one. -/
theorem standsFor_readBack_iff (durable : op.Durable state store)
    (leftClean : state.dirtyLeft = ∅) (rightClean : state.dirtyRight = ∅) :
    op.StandsFor state op (readBack store op.opId) ↔ UnitWeights state := by
  have left := durable.left
  have right := durable.right
  rw [leftClean] at left
  rw [rightClean] at right
  constructor
  · intro stands
    refine ⟨fun joinKey rowId => ?_, fun joinKey rowId => ?_⟩
    · rw [← restored_eq_iff, ← find_loadArr_of_mirrors left]
      exact stands.left joinKey rowId
    · rw [← restored_eq_iff, ← find_loadArr_of_mirrors right]
      exact stands.right joinKey rowId
  · rintro ⟨leftUnit, rightUnit⟩
    refine standsFor_of_agree
      { left := fun joinKey _ rowId => ?_, right := fun joinKey _ rowId => ?_
        leftStaged := durable.leftEmpty, rightStaged := durable.rightEmpty
        leftInside := fun _ _ => trivial, rightInside := fun _ _ => trivial
        dirtyLeft := fun row => by rw [leftClean]; rfl
        dirtyRight := fun row => by rw [rightClean]; rfl }
    · rw [← (restored_eq_iff _).mpr (leftUnit joinKey rowId), ← find_loadArr_of_mirrors left]
      rfl
    · rw [← (restored_eq_iff _).mpr (rightUnit joinKey rowId), ← find_loadArr_of_mirrors right]
      rfl

/-- After any history, persisting a join and restoring it in place gives a join that stands for the
original exactly when every stored row has weight one. So does loading it from storage where the
join is the one that loading builds. -/
theorem restored_stands_for_iff {op : JoinOp} {store stored : Store} {events : List Event}
    {outputs : List (Option ArrowZSet)} {state : JoinState} (unwritten : Unwritten op.opId store)
    (elsewhere : ∀ event ∈ events, event.Elsewhere op.opId)
    (ran : Loop.run op.handle (.new, store) events = .ok (outputs, (state, stored))) : ∃ restored,
      op.restoreInPlace (stored.writeBatch (op.appendState state).1).scan .new = .ok restored ∧
      loadFromStorage (stored.writeBatch (op.appendState state).1).scan op.opId =
        .ok (new op.opId [0] [0], restored) ∧
      (op.StandsFor (op.appendState state).2 op restored.state ↔ UnitWeights state) ∧
      (op = new op.opId [0] [0] →
        (op.StandsFor (op.appendState state).2 (new op.opId [0] [0]) restored.state ↔
          UnitWeights state)) := by
  have durable := (durable_run unwritten elsewhere ran).persist
  have inPlace := standsFor_readBack_iff durable rfl rfl
  refine ⟨_, restoreInPlace_new op _, rfl, inPlace, fun isLoaded => ?_⟩
  rw [← isLoaded]
  exact inPlace

/-! ## A history -/

/-- A matched row, a persist, a foreign write and a retraction that is not yet persisted. -/
def sampleEvents : List Event :=
  [.epoch (sampleBatch [((some 1, 10), 1), ((some 2, 11), 2)], sampleBatch [((some 1, 20), 1)]),
    .persist, .others [.put [0x02] [7]],
    .epoch (sampleBatch [((some 2, 11), -1)], sampleBatch [])]

theorem elsewhere_sampleEvents (opId : UInt64) : ∀ event ∈ sampleEvents, event.Elsewhere opId := by
  simp only [sampleEvents, List.mem_cons, List.not_mem_nil, or_false]
  rintro event (rfl | rfl | rfl | rfl)
  · trivial
  · trivial
  · intro mutation mem side heads
    rw [List.mem_singleton.mp mem] at heads
    have short := heads.length_le
    rw [joinArrOpPrefix_length] at short
    exact absurd short (by decide)
  · trivial

theorem restored_stands_for_iff_sample : ∃ outputs state stored restored,
    Loop.run sampleOp.handle (.new, ∅) sampleEvents = .ok (outputs, (state, stored)) ∧
      sampleOp.restoreInPlace (stored.writeBatch (sampleOp.appendState state).1).scan .new =
        .ok restored ∧
      loadFromStorage (stored.writeBatch (sampleOp.appendState state).1).scan sampleOp.opId =
        .ok (sampleOp, restored) ∧
      (sampleOp.StandsFor (sampleOp.appendState state).2 sampleOp restored.state ↔
        UnitWeights state) := by
  obtain ⟨⟨outputs, state, stored⟩, ran, _⟩ := exists_ok_of_any
    (Loop.run sampleOp.handle (.new, ∅) sampleEvents) (fun _ => true) (by decide +kernel)
  obtain ⟨restored, done, loaded, _, same⟩ := restored_stands_for_iff (fun _ _ _ => rfl)
    (elsewhere_sampleEvents sampleOp.opId) ran
  exact ⟨outputs, state, stored, restored, ran, done, loaded, same rfl⟩

def emittedWeights (op : JoinOp) (state : JoinState) (epoch : ArrowZSet × ArrowZSet) :
    Option (List Int) :=
  (op.processEpoch state epoch).toOption.map fun result => result.1.rows.map Prod.snd

/-- A row inserted twice is stored with weight two and read back with weight one: a matching right
row then joins twice before the restart and once after it. -/
theorem doubled_row_restored_once : ∃ outputs state stored restored,
    Loop.run sampleOp.handle (.new, ∅)
        [.epoch (sampleBatch [((some 1, 10), 1), ((some 1, 10), 1)], sampleBatch [])] =
      .ok (outputs, (state, stored)) ∧
      sampleOp.restoreInPlace (stored.writeBatch (sampleOp.appendState state).1).scan .new =
        .ok restored ∧ sampleOp.emittedWeights (sampleOp.appendState state).2
        (sampleBatch [], sampleBatch [((some 1, 20), 1)]) = some [2] ∧
      sampleOp.emittedWeights restored.state
        (sampleBatch [], sampleBatch [((some 1, 20), 1)]) = some [1] := by
  obtain ⟨⟨outputs, state, stored⟩, ran, tested⟩ := exists_ok_of_any
    (Loop.run sampleOp.handle (.new, ∅)
      [.epoch (sampleBatch [((some 1, 10), 1), ((some 1, 10), 1)], sampleBatch [])])
    (fun result => decide (
      sampleOp.emittedWeights (sampleOp.appendState result.2.1).2
        (sampleBatch [], sampleBatch [((some 1, 20), 1)]) = some [2] ∧
      sampleOp.emittedWeights (readBack
          (Store.writeBatch result.2.2 (sampleOp.appendState result.2.1).1) sampleOp.opId)
        (sampleBatch [], sampleBatch [((some 1, 20), 1)]) = some [1])) (by decide +kernel)
  exact ⟨outputs, state, stored, _, ran, restoreInPlace_new sampleOp _, of_decide_eq_true tested⟩

end JoinOp

end RockStream
