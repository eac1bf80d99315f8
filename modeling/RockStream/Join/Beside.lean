import RockStream.Join.Lazy

/-!
Contract: a demand-loaded inner join beside a fully loaded one.

A key whose persisted rows are updated before they were loaded starts from nothing, and
the lazy join goes apart from the full one. Where every updated key is loaded first, or
has nothing in the store, the two run alike.

Owns:
- `Shadows`, how a lazily loaded side stands beside the fully loaded one, and its
  preservation by loads and by drains;
- `Covered`, the runs that update no persisted key before it is loaded;
- equal outputs and equal persisted state over every covered run.

Does not own: what a load reads.
-/

namespace RockStream

open Lib Loop ShardKeyEncoder List Arrangement AList

variable {joinKey : Bytes} {op : JoinOp} {delta : ArrowZSet} {store : Store}

/-! ## A lazily loaded side beside the fully loaded one -/

namespace JoinOp

variable {keyCols : List Nat} {rows : List (List Cell × Int)}

def HasStored (store : Store) (side : JoinSide) (opId : UInt64) (joinKey : Bytes) : Prop :=
  ∃ rowId, store.lookup (joinArrKey side opId joinKey rowId) ≠ none

/-- Under every key the two arrangements hold the same rows, and the key is loaded or has nothing
in the store; or the key is neither loaded nor touched, and the full side holds its records. -/
def Shadows (store : Store) (side : JoinSide) (opId : UInt64) (loaded : HashSet Bytes)
    (arr : Arrangement) (dirty : HashSet (Bytes × BitVec 128)) (full : Arrangement) : Prop :=
  ∀ joinKey,
    (Arrangement.SameAt joinKey arr full ∧
      (joinKey ∈ loaded ∨ ¬ HasStored store side opId joinKey)) ∨
    (joinKey ∉ loaded ∧ ∀ rowId, arr.find joinKey rowId = none ∧ (joinKey, rowId) ∉ dirty ∧
      full.find joinKey rowId = (store.lookup (joinArrKey side opId joinKey rowId)).map (⟨·, 1⟩))

namespace Shadows

variable {side : JoinSide} {opId : UInt64} {loaded : HashSet Bytes} {arr full : Arrangement}
  {dirty : HashSet (Bytes × BitVec 128)}

section

variable (shadows : Shadows store side opId loaded arr dirty full)
include shadows

theorem same_of_loaded (isLoaded : joinKey ∈ loaded) : Arrangement.SameAt joinKey arr full := by
  rcases shadows joinKey with ⟨same, _⟩ | ⟨notLoaded, _⟩
  · exact same
  · exact absurd isLoaded notLoaded

theorem same_of_not_stored
    (unstored : ¬ HasStored store side opId joinKey) : Arrangement.SameAt joinKey arr full := by
  rcases shadows joinKey with ⟨same, _⟩ | ⟨_, untouched⟩
  · exact same
  · intro rowId
    have absent : store.lookup (joinArrKey side opId joinKey rowId) = none :=
      not_not.mp fun stored => unstored ⟨rowId, stored⟩
    rw [(untouched rowId).1, (untouched rowId).2.2, absent]
    rfl

theorem same_of_dirty
    {row : Bytes × BitVec 128} (isDirty : row ∈ dirty) : Arrangement.SameAt row.1 arr full := by
  rcases shadows row.1 with ⟨same, _⟩ | ⟨_, untouched⟩
  · exact same
  · exact absurd isDirty (untouched row.2).2.1

end

/-- At first nothing is loaded, and the full side holds the records. -/
theorem start (store : Store) (side : JoinSide) (opId : UInt64) : Shadows store side opId ∅ ∅ ∅
      (loadArr (store.under (joinArrOpPrefix side opId))) := by
  intro joinKey
  refine .inr ⟨notMem_empty _, fun rowId => ⟨rfl, notMem_empty _, ?_⟩⟩
  exact find_loadArr store side opId joinKey rowId

theorem load (shadows : Shadows store side opId loaded arr dirty full) (stateBytes : Nat)
    (notLoaded : joinKey ∉ loaded)
    (ofKey : ∀ record ∈ store.under (joinArrKeyPrefix side opId joinKey),
      ∃ rowId, record.1 = joinArrKey side opId joinKey rowId) :
    Shadows store side opId (loaded.insert joinKey ())
      ((store.under (joinArrKeyPrefix side opId joinKey)).foldl
        (loadEntry joinKey dirty) (arr, stateBytes)).1 dirty full := by
  have found := find_foldl_loadEntry dirty (arr, stateBytes) ofKey
  intro otherKey
  by_cases sameKey : otherKey = joinKey
  · subst sameKey
    refine .inl ⟨fun rowId => ?_, .inl ((mem_insert _).mpr (.inl rfl))⟩
    have heads : joinArrKeyPrefix side opId otherKey <+: joinArrKey side opId otherKey rowId :=
      prefix_append _ _
    rw [found, if_pos rfl, recordOf_under heads]
    rcases shadows otherKey with ⟨same, isLoaded | unstored⟩ | ⟨_, untouched⟩
    · exact absurd isLoaded notLoaded
    · have absent : store.lookup (joinArrKey side opId otherKey rowId) = none :=
        not_not.mp fun stored => unstored ⟨rowId, stored⟩
      rw [absent, ← same rowId]
      simp [overlay]
    · obtain ⟨held, clean, isFull⟩ := untouched rowId
      rw [isFull]
      simp [overlay, held, clean]
  · have unchanged : ∀ rowId, ((store.under (joinArrKeyPrefix side opId joinKey)).foldl
        (loadEntry joinKey dirty) (arr, stateBytes)).1.find otherKey rowId =
          arr.find otherKey rowId := fun rowId => by rw [found, if_neg sameKey]
    have sameLoaded : otherKey ∈ loaded.insert joinKey () ↔ otherKey ∈ loaded := by
      simp [sameKey]
    rcases shadows otherKey with ⟨same, status⟩ | ⟨notLoadedYet, untouched⟩
    · refine .inl ⟨fun rowId => by rw [unchanged, same rowId], ?_⟩
      rwa [sameLoaded]
    · exact .inr ⟨fun isLoaded => notLoadedYet (sameLoaded.mp isLoaded),
        fun rowId => by rw [unchanged]; exact untouched rowId⟩

/-- Draining a delta on both sides, all of whose keys are loaded or have nothing in the store. -/
theorem drain {before after beforeFull afterFull : Arranged} {rows : List (Entry × Int)}
    (shadows : Shadows store side opId loaded before.arr before.dirty beforeFull.arr)
    (drained : Arranged.Drained before after rows)
    (drainedFull : Arranged.Drained beforeFull afterFull rows)
    (status : ∀ row ∈ rows, row.1.joinKey ∈ loaded ∨ ¬ HasStored store side opId row.1.joinKey)
    (agree : ∀ row ∈ rows, Arrangement.SameAt row.1.joinKey after.arr afterFull.arr) :
    Shadows store side opId loaded after.arr after.dirty afterFull.arr := by
  intro joinKey
  by_cases touched : ∃ row ∈ rows, row.1.joinKey = joinKey
  · obtain ⟨row, mem, rfl⟩ := touched
    exact .inl ⟨agree row mem, status row mem⟩
  · have apart : ∀ rowId, ∀ row ∈ rows, (row.1.joinKey, row.1.rowId) ≠ (joinKey, rowId) :=
      fun rowId row mem same => touched ⟨row, mem, (Prod.mk.inj same).1⟩
    rcases shadows joinKey with ⟨same, status⟩ | ⟨notLoaded, untouched⟩
    · refine .inl ⟨fun rowId => ?_, status⟩
      rw [drained.kept joinKey rowId (apart rowId), drainedFull.kept joinKey rowId (apart rowId)]
      exact same rowId
    · refine .inr ⟨notLoaded, fun rowId => ?_⟩
      rw [drained.kept joinKey rowId (apart rowId), drainedFull.kept joinKey rowId (apart rowId)]
      refine ⟨(untouched rowId).1, fun isDirty => ?_, (untouched rowId).2.2⟩
      rcases (drained.dirty _).mp isDirty with old | ⟨row, mem, same⟩
      · exact (untouched rowId).2.1 old
      · exact apart rowId row mem same

end Shadows

structure Beside (op : JoinOp) (store : Store) (cache full : JoinCache) : Prop where
  db : cache.db = some store.scan
  notLoaded : cache.stateLoaded = false
  fullLoaded : full.stateLoaded = true
  shadows : ∀ side, Shadows store side op.opId (cache.loadedKeys side) (cache.state.arr side)
    (cache.state.dirty side) (full.state.arr side)
  leftEmpty : cache.state.leftStaged.rows = []
  rightEmpty : cache.state.rightStaged.rows = []
  fullLeftEmpty : full.state.leftStaged.rows = []
  fullRightEmpty : full.state.rightStaged.rows = []
  dirty : ∀ side row, row ∈ cache.state.dirty side ↔ row ∈ full.state.dirty side

section Loading

theorem mem_loadedKeys_install (cache : JoinCache) (side : JoinSide) (joinKey : Bytes)
    (loaded : Arrangement × Nat) (otherSide : JoinSide) (otherKey : Bytes) :
    otherKey ∈ (cache.install side joinKey loaded).loadedKeys otherSide ↔
      (otherSide = side ∧ otherKey = joinKey) ∨ otherKey ∈ cache.loadedKeys otherSide := by
  cases side <;> cases otherSide <;>
    simp [JoinCache.install, JoinCache.loadedKeys, mem_insert]

variable {cache full : JoinCache} (wellKeyed : op.WellKeyed store) (side : JoinSide)

include wellKeyed

theorem beside_install (beside : op.Beside store cache full)
    (encodes : KeyCapsule.Encodes op.leftKeyCols.length joinKey)
    (fresh : joinKey ∉ cache.loadedKeys side) : op.Beside store (cache.install side joinKey
      ((store.under (joinArrKeyPrefix side op.opId joinKey)).foldl
        (loadEntry joinKey (cache.state.dirty side))
        (cache.state.arr side, cache.state.stateBytes))) full := by
  have loaded := (beside.shadows side).load cache.state.stateBytes fresh
    (wellKeyed.ofKey encodes side)
  cases side with
  | left =>
    refine { beside with shadows := fun side => ?_, dirty := fun side => ?_ }
    · cases side with
      | left => exact loaded
      | right => exact beside.shadows .right
    · have dirty := beside.dirty side
      cases side <;> exact dirty
  | right =>
    refine { beside with shadows := fun side => ?_, dirty := fun side => ?_ }
    · cases side with
      | left => exact beside.shadows .left
      | right => exact loaded
    · have dirty := beside.dirty side
      cases side <;> exact dirty

theorem ensureArrangementKeyLoaded_beside (beside : op.Beside store cache full)
    (encodes : KeyCapsule.Encodes op.leftKeyCols.length joinKey) :
    ∃ next, op.ensureArrangementKeyLoaded side cache joinKey = .ok next ∧
      op.Beside store next full ∧ ∀ otherSide otherKey, otherKey ∈ next.loadedKeys otherSide ↔
        (otherSide = side ∧ otherKey = joinKey) ∨ otherKey ∈ cache.loadedKeys otherSide := by
  unfold ensureArrangementKeyLoaded
  rw [beside.notLoaded, beside.db]
  by_cases isLoaded : joinKey ∈ cache.loadedKeys side
  · refine ⟨cache, by simp [isLoaded, pure, Except.pure], beside, fun otherSide otherKey => ?_⟩
    constructor
    · exact .inr
    · rintro (⟨rfl, rfl⟩ | old)
      · exact isLoaded
      · exact old
  · refine ⟨_, ?_, beside_install wellKeyed side beside encodes isLoaded,
      mem_loadedKeys_install cache side joinKey _⟩
    simp only [isLoaded, Bool.false_eq_true, if_false]
    rfl

theorem foldlM_ensure_beside {keys : List Bytes}
    (encodes : ∀ joinKey ∈ keys, KeyCapsule.Encodes op.leftKeyCols.length joinKey)
    (beside : op.Beside store cache full) :
    ∃ next, keys.foldlM (op.ensureArrangementKeyLoaded side) cache = .ok next ∧
      op.Beside store next full ∧ ∀ otherSide otherKey, otherKey ∈ next.loadedKeys otherSide ↔
        (otherSide = side ∧ otherKey ∈ keys) ∨ otherKey ∈ cache.loadedKeys otherSide := by
  induction keys generalizing cache with
  | nil => exact ⟨cache, rfl, beside, by simp⟩
  | cons joinKey keys ih =>
    obtain ⟨middle, loaded, besideMiddle, middleKeys⟩ :=
      ensureArrangementKeyLoaded_beside wellKeyed side beside (encodes joinKey (by simp))
    obtain ⟨next, rest, besideNext, nextKeys⟩ := ih
      (fun other mem => encodes other (by simp [mem])) besideMiddle
    refine ⟨next, ?_, besideNext, fun otherSide otherKey => ?_⟩
    · rw [foldlM_cons, loaded]
      exact rest
    · rw [nextKeys, middleKeys, mem_cons, and_or_left]
      tauto

end Loading

/-! ## The keys of a delta -/

def Extracts (rows : List (List Cell × Int)) (keyCols : List Nat) : Prop :=
  ∀ row ∈ rows, ∃ slot, extractKey row.1 keyCols = .ok slot

theorem deltaKeys_eq_ok {keys : HashSet Bytes} (done : deltaKeys rows keyCols = .ok keys) :
    Extracts rows keyCols ∧ ∀ joinKey, joinKey ∈ keys ↔ Mentions rows keyCols joinKey := by
  refine foldlM_invariant (fun consumed keys => Extracts consumed keyCols ∧
    ∀ joinKey, joinKey ∈ keys ↔ Mentions consumed keyCols joinKey) ?_
    ⟨by simp [Extracts], by simp [Mentions]⟩ done
  rintro consumed keys row next ⟨extracts, mentioned⟩ stepped
  obtain ⟨slot, extracted, stepped⟩ := bind_eq_ok.mp stepped
  refine ⟨?_, fun joinKey => ?_⟩
  · exact forall_mem_append.mpr ⟨extracts, forall_mem_singleton.mpr ⟨slot, extracted⟩⟩
  · have grown : Mentions (consumed ++ [row]) keyCols joinKey ↔
        Mentions consumed keyCols joinKey ∨ slot = some joinKey := by
      simp [Mentions, or_and_right, exists_or, extracted]
    rw [grown, ← mentioned]
    cases slot with
    | none =>
      cases stepped
      simp
    | some found =>
      cases stepped
      rw [mem_insert, or_comm, Option.some.injEq, @eq_comm _ joinKey]

theorem deltaKeys_succeeds (extracts : Extracts rows keyCols) :
    ∃ keys, deltaKeys rows keyCols = .ok keys := by
  unfold deltaKeys
  generalize (∅ : HashSet Bytes) = start
  induction rows generalizing start with
  | nil => exact ⟨start, rfl⟩
  | cons row rows ih =>
    obtain ⟨slot, extracted⟩ := extracts row (by simp)
    have rest := ih fun other mem => extracts other (by simp [mem])
    rw [foldlM_cons, extracted]
    cases slot with
    | none => exact rest start
    | some joinKey => exact rest (start.insert joinKey ())

theorem extracts_of_accepts (accepts : op.Accepts keyCols rows) : Extracts rows keyCols := by
  intro row mem
  obtain ⟨entry, staged⟩ := accepts row mem
  obtain ⟨slot, extracted, _⟩ := bind_eq_ok.mp staged
  exact ⟨slot, extracted⟩

section LoadingDeltas

variable {cache full : JoinCache}

theorem loadArrangementKeys_beside (wellKeyed : op.WellKeyed store)
    (beside : op.Beside store cache full) (side : JoinSide)
    (arity : keyCols.length = op.leftKeyCols.length) (extracts : Extracts delta.rows keyCols) :
    ∃ next, op.loadArrangementKeys side cache delta keyCols = .ok next ∧
      op.Beside store next full ∧ ∀ otherSide otherKey, otherKey ∈ next.loadedKeys otherSide ↔
        (otherSide = side ∧ Mentions delta.rows keyCols otherKey) ∨
          otherKey ∈ cache.loadedKeys otherSide := by
  obtain ⟨keys, collected⟩ := deltaKeys_succeeds extracts
  have mentioned := (deltaKeys_eq_ok collected).2
  have encodes : ∀ joinKey ∈ keys.keys, KeyCapsule.Encodes op.leftKeyCols.length joinKey := by
    intro joinKey mem
    obtain ⟨row, _, extracted⟩ := (mentioned joinKey).mp mem
    rw [← arity]
    exact encodes_of_extractKey extracted
  obtain ⟨next, loaded, besideNext, nextKeys⟩ := foldlM_ensure_beside wellKeyed side encodes beside
  refine ⟨next, ?_, besideNext, fun otherSide otherKey => ?_⟩
  · unfold loadArrangementKeys
    rw [beside.notLoaded, beside.db, collected]
    exact loaded
  · rw [nextKeys, ← mentioned]
    rfl

theorem extracts_of_loadArrangementKeys (beside : op.Beside store cache full) {side : JoinSide}
    {next : JoinCache} (loaded : op.loadArrangementKeys side cache delta keyCols = .ok next) :
    Extracts delta.rows keyCols := by
  unfold loadArrangementKeys at loaded
  rw [beside.notLoaded, beside.db] at loaded
  obtain ⟨keys, collected, _⟩ := bind_eq_ok.mp loaded
  exact (deltaKeys_eq_ok (Exec.within_eq_ok.mp collected)).1

end LoadingDeltas

/-! ## Epochs -/

/-- No key of an epoch has rows in the store on the side it updates, unless an epoch so far,
this one included, mentions it on the other side. -/
def CoveredEpoch (op : JoinOp) (store : Store) (done : List (ArrowZSet × ArrowZSet))
    (epoch : ArrowZSet × ArrowZSet) : Prop :=
  (∀ row ∈ op.leftDelta epoch, HasStored store .left op.opId row.1.joinKey →
    ∃ earlier ∈ done ++ [epoch], ∃ other ∈ op.rightDelta earlier,
      other.1.joinKey = row.1.joinKey) ∧
  ∀ row ∈ op.rightDelta epoch, HasStored store .right op.opId row.1.joinKey →
    ∃ earlier ∈ done ++ [epoch], ∃ other ∈ op.leftDelta earlier,
      other.1.joinKey = row.1.joinKey

def Covered (op : JoinOp) (store : Store) (epochs : List (ArrowZSet × ArrowZSet)) : Prop :=
  ∀ done epoch rest, epochs = done ++ epoch :: rest → op.CoveredEpoch store done epoch

/-- Beside the full join after a list of epochs, with their keys loaded. -/
structure RunBeside (op : JoinOp) (store : Store) (done : List (ArrowZSet × ArrowZSet))
    (cache full : JoinCache) : Prop extends op.Beside store cache full where
  leftLoaded : ∀ epoch ∈ done, ∀ row ∈ op.rightDelta epoch,
    row.1.joinKey ∈ cache.loadedKeys .left
  rightLoaded : ∀ epoch ∈ done, ∀ row ∈ op.leftDelta epoch,
    row.1.joinKey ∈ cache.loadedKeys .right

section Epoch

variable {cache full : JoinCache} {done : List (ArrowZSet × ArrowZSet)}
  {epoch : ArrowZSet × ArrowZSet}

def EpochKey (op : JoinOp) (epoch : ArrowZSet × ArrowZSet) (joinKey : Bytes) : Prop :=
  (∃ row ∈ op.leftDelta epoch, row.1.joinKey = joinKey) ∨
    ∃ row ∈ op.rightDelta epoch, row.1.joinKey = joinKey

theorem loadEpoch_beside (wellKeyed : op.WellKeyed store)
    (arity : op.rightKeyCols.length = op.leftKeyCols.length)
    (beside : op.RunBeside store done cache full)
    (leftExtracts : Extracts epoch.1.rows op.leftKeyCols)
    (rightExtracts : Extracts epoch.2.rows op.rightKeyCols) :
    ∃ next, op.processEpochWithStorage cache epoch =
        next.onState (fun state => op.processEpoch state epoch) ∧
      op.RunBeside store (done ++ [epoch]) next full := by
  obtain ⟨middle, loadedRight, besideMiddle, middleKeys⟩ :=
    loadArrangementKeys_beside wellKeyed beside.toBeside .right rfl leftExtracts
  obtain ⟨next, loadedLeft, besideNext, nextKeys⟩ :=
    loadArrangementKeys_beside wellKeyed besideMiddle .left arity rightExtracts
  refine ⟨next, ?_, { besideNext with leftLoaded := ?_, rightLoaded := ?_ }⟩
  · rw [processEpochWithStorage, bind_of_ok loadedRight, bind_of_ok loadedLeft]
  · intro earlier mem row inside
    rw [nextKeys]
    rcases mem_append.mp mem with old | new
    · exact .inr ((middleKeys .left _).mpr (.inr (beside.leftLoaded earlier old row inside)))
    · rw [mem_singleton.mp new] at inside
      exact .inl ⟨rfl, mentions_of_mem_staged inside⟩
  · intro earlier mem row inside
    rw [nextKeys, middleKeys]
    rcases mem_append.mp mem with old | new
    · exact .inr (.inr (beside.rightLoaded earlier old row inside))
    · rw [mem_singleton.mp new] at inside
      exact .inr (.inl ⟨rfl, mentions_of_mem_staged inside⟩)

section

variable (beside : op.RunBeside store (done ++ [epoch]) cache full)
  (covered : op.CoveredEpoch store done epoch)
include beside covered

theorem RunBeside.status : (∀ row ∈ op.leftDelta epoch, row.1.joinKey ∈ cache.loadedKeys .left ∨
      ¬ HasStored store .left op.opId row.1.joinKey) ∧
    ∀ row ∈ op.rightDelta epoch, row.1.joinKey ∈ cache.loadedKeys .right ∨
      ¬ HasStored store .right op.opId row.1.joinKey := by
  refine ⟨fun row mem => or_not_of_imp fun stored => ?_,
    fun row mem => or_not_of_imp fun stored => ?_⟩
  · obtain ⟨earlier, inDone, other, inside, same⟩ := covered.1 row mem stored
    exact same ▸ beside.leftLoaded earlier inDone other inside
  · obtain ⟨earlier, inDone, other, inside, same⟩ := covered.2 row mem stored
    exact same ▸ beside.rightLoaded earlier inDone other inside

theorem RunBeside.agreeOn : cache.state.AgreeOn (op.EpochKey epoch) full.state := by
  obtain ⟨leftStatus, rightStatus⟩ := beside.status covered
  have inEpoch : epoch ∈ done ++ [epoch] := by simp
  have same : ∀ side joinKey,
      joinKey ∈ cache.loadedKeys side ∨ ¬ HasStored store side op.opId joinKey →
        Arrangement.SameAt joinKey (cache.state.arr side) (full.state.arr side) := by
    rintro side joinKey (isLoaded | unstored)
    · exact (beside.shadows side).same_of_loaded isLoaded
    · exact (beside.shadows side).same_of_not_stored unstored
  refine
    { left := ?_, right := ?_
      leftStaged := beside.leftEmpty.trans beside.fullLeftEmpty.symm
      rightStaged := beside.rightEmpty.trans beside.fullRightEmpty.symm
      leftInside := by rw [beside.leftEmpty]; simp
      rightInside := by rw [beside.rightEmpty]; simp
      dirtyLeft := beside.dirty .left
      dirtyRight := beside.dirty .right }
  · rintro joinKey (⟨row, mem, rfl⟩ | ⟨row, mem, rfl⟩)
    · exact same .left _ (leftStatus row mem)
    · exact same .left _ (.inl (beside.leftLoaded epoch inEpoch row mem))
  · rintro joinKey (⟨row, mem, rfl⟩ | ⟨row, mem, rfl⟩)
    · exact same .right _ (.inl (beside.rightLoaded epoch inEpoch row mem))
    · exact same .right _ (rightStatus row mem)

theorem RunBeside.step {output fullOutput : ArrowZSet} {state fullState : JoinState}
    (processed : op.processEpoch cache.state epoch = .ok (output, state))
    (fullProcessed : op.processEpoch full.state epoch = .ok (fullOutput, fullState))
    (agree : state.AgreeOn (op.EpochKey epoch) fullState) :
    op.RunBeside store (done ++ [epoch]) { cache with state } { full with state := fullState } := by
  have spec := processEpoch_eq_ok beside.leftEmpty beside.rightEmpty processed
  have fullSpec := processEpoch_eq_ok beside.fullLeftEmpty beside.fullRightEmpty fullProcessed
  obtain ⟨leftStatus, rightStatus⟩ := beside.status covered
  refine { beside with
    shadows := fun side => ?_, leftEmpty := spec.leftEmpty, rightEmpty := spec.rightEmpty
    fullLeftEmpty := fullSpec.leftEmpty, fullRightEmpty := fullSpec.rightEmpty
    dirty := fun side => ?_ }
  · cases side with
    | left =>
      obtain ⟨_, final, drained, isArr, isDirty⟩ := spec.leftDrained
      obtain ⟨_, fullFinal, fullDrained, isFullArr, _⟩ := fullSpec.leftDrained
      show Shadows store .left op.opId (cache.loadedKeys .left) state.leftArr state.dirtyLeft
        fullState.leftArr
      rw [isArr, isDirty, isFullArr]
      refine (beside.shadows .left).drain (Arranged.drained_of_drain drained)
        (Arranged.drained_of_drain fullDrained) leftStatus fun row mem => ?_
      rw [← isArr, ← isFullArr]
      exact agree.left _ (.inl ⟨row, mem, rfl⟩)
    | right =>
      obtain ⟨_, final, drained, isArr, isDirty⟩ := spec.rightDrained
      obtain ⟨_, fullFinal, fullDrained, isFullArr, _⟩ := fullSpec.rightDrained
      show Shadows store .right op.opId (cache.loadedKeys .right) state.rightArr state.dirtyRight
        fullState.rightArr
      rw [isArr, isDirty, isFullArr]
      refine (beside.shadows .right).drain (Arranged.drained_of_drain drained)
        (Arranged.drained_of_drain fullDrained) rightStatus fun row mem => ?_
      rw [← isArr, ← isFullArr]
      exact agree.right _ (.inr ⟨row, mem, rfl⟩)
  · cases side with
    | left => exact agree.dirtyLeft
    | right => exact agree.dirtyRight

end

theorem processEpochWithStorage_of_loaded (isLoaded : full.stateLoaded = true) :
    op.processEpochWithStorage full epoch =
      full.onState fun state => op.processEpoch state epoch := by
  have skipped : ∀ side delta keyCols,
      op.loadArrangementKeys side full delta keyCols = .ok full := by
    intro side delta keyCols
    unfold loadArrangementKeys
    rw [if_pos (.inl isLoaded)]
    rfl
  rw [processEpochWithStorage, bind_of_ok (skipped ..), bind_of_ok (skipped ..)]

theorem onState_eq_ok {cache : JoinCache}
    {call : JoinState → Step JoinState (ArrowZSet × JoinState)} {result : ArrowZSet × JoinCache} :
    cache.onState call = .ok result ↔
      ∃ state, call cache.state = .ok (result.1, state) ∧ result.2 = { cache with state } := by
  unfold JoinCache.onState
  split
  · next output state called =>
    rw [called]
    constructor
    · intro ended
      cases ended
      exact ⟨state, rfl, rfl⟩
    · rintro ⟨_, same, isResult⟩
      cases same
      rw [← isResult]
  · next fault state called =>
    rw [called]
    constructor
    · intro impossible
      cases impossible
    · rintro ⟨_, impossible, _⟩
      cases impossible

/-- What one epoch of the two joins has in common. -/
def StepAlike (op : JoinOp) (store : Store) (done : List (ArrowZSet × ArrowZSet))
    (result fullResult : ArrowZSet × JoinCache) : Prop :=
  ArrowZSet.Alike result.1 fullResult.1 ∧ op.RunBeside store done result.2 fullResult.2

theorem lazy_simulates_full (wellKeyed : op.WellKeyed store)
    (arity : op.rightKeyCols.length = op.leftKeyCols.length)
    (covered : op.CoveredEpoch store done epoch) (beside : op.RunBeside store done cache full) :
    Simulates (op.StepAlike store (done ++ [epoch])) (op.processEpochWithStorage cache epoch)
      (op.processEpochWithStorage full epoch) := by
  rw [processEpochWithStorage_of_loaded beside.fullLoaded]
  intro result processed
  have extracts : Extracts epoch.1.rows op.leftKeyCols ∧ Extracts epoch.2.rows op.rightKeyCols := by
    obtain ⟨middle, loadedRight, rest⟩ := bind_eq_ok.mp processed
    obtain ⟨next, loadedLeft, _⟩ := bind_eq_ok.mp rest
    have leftExtracts := extracts_of_loadArrangementKeys beside.toBeside loadedRight
    obtain ⟨middle', loadedRight', besideMiddle, _⟩ :=
      loadArrangementKeys_beside wellKeyed beside.toBeside .right rfl leftExtracts
    cases loadedRight.symm.trans loadedRight'
    exact ⟨leftExtracts, extracts_of_loadArrangementKeys besideMiddle loadedLeft⟩
  obtain ⟨next, sameCall, besideNext⟩ :=
    loadEpoch_beside wellKeyed arity beside extracts.1 extracts.2
  rw [sameCall] at processed
  obtain ⟨state, called, isResult⟩ := onState_eq_ok.mp processed
  have simulates := processEpoch_simulates (besideNext.agreeOn covered)
    (fun row mem => Or.inl ⟨row, mem, rfl⟩) (fun row mem => Or.inr ⟨row, mem, rfl⟩)
  obtain ⟨fullResult, fullCalled, alike, agree⟩ := simulates _ called
  refine ⟨(fullResult.1, { full with state := fullResult.2 }),
    onState_eq_ok.mpr ⟨fullResult.2, fullCalled, rfl⟩, alike, ?_⟩
  rw [isResult]
  exact besideNext.step covered called fullCalled agree

theorem full_simulates_lazy (wellKeyed : op.WellKeyed store)
    (arity : op.rightKeyCols.length = op.leftKeyCols.length)
    (covered : op.CoveredEpoch store done epoch) (beside : op.RunBeside store done cache full) :
    Simulates (fun fullResult result => op.StepAlike store (done ++ [epoch]) result fullResult)
      (op.processEpochWithStorage full epoch) (op.processEpochWithStorage cache epoch) := by
  rw [processEpochWithStorage_of_loaded beside.fullLoaded]
  intro fullResult processed
  obtain ⟨fullState, fullCalled, isResult⟩ := onState_eq_ok.mp processed
  have spec := processEpoch_eq_ok beside.fullLeftEmpty beside.fullRightEmpty fullCalled
  obtain ⟨next, sameCall, besideNext⟩ := loadEpoch_beside wellKeyed arity beside
    (extracts_of_accepts spec.leftAccepts) (extracts_of_accepts spec.rightAccepts)
  have simulates := processEpoch_simulates (besideNext.agreeOn covered).symm
    (fun row mem => Or.inl ⟨row, mem, rfl⟩) (fun row mem => Or.inr ⟨row, mem, rfl⟩)
  obtain ⟨result, called, alike, agree⟩ := simulates _ fullCalled
  rw [sameCall]
  refine ⟨(result.1, { next with state := result.2 }),
    onState_eq_ok.mpr ⟨result.2, called, rfl⟩, ⟨alike.1.symm, alike.2.symm⟩, ?_⟩
  rw [isResult]
  exact besideNext.step covered called fullCalled agree.symm

end Epoch

/-! ## Runs -/

theorem Beside.lookup_appendState {cache full : JoinCache}
    (beside : op.Beside store cache full) (key : Bytes) :
    (store.writeBatch (op.appendState cache.state).1).lookup key =
      (store.writeBatch (op.appendState full.state).1).lookup key := by
  simp only [appendState, Store.writeBatch_append]
  refine lookup_rowMutations_congr (fun key => ?_) (beside.dirty .right)
    (fun row isDirty => (beside.shadows .right).same_of_dirty isDirty row.2) key
  exact lookup_rowMutations_congr (fun _ => rfl) (beside.dirty .left)
    (fun row isDirty => (beside.shadows .left).same_of_dirty isDirty row.2) key

theorem runBeside_start (op : JoinOp) (store : Store) :
    op.RunBeside store [] (JoinCache.new.setDb store.scan)
      ⟨readBack store op.opId, some store.scan, true, ∅, ∅⟩ where
  db := rfl
  notLoaded := rfl
  fullLoaded := rfl
  shadows := fun side => by
    cases side with
    | left => exact Shadows.start store .left op.opId
    | right => exact Shadows.start store .right op.opId
  leftEmpty := rfl
  rightEmpty := rfl
  fullLeftEmpty := rfl
  fullRightEmpty := rfl
  dirty := fun side row => by cases side <;> rfl
  leftLoaded := by simp
  rightLoaded := by simp

/-- Two runs emitted the same rows epoch by epoch, and `append_state` leaves the same records. -/
def SameRun (op : JoinOp) (store : Store) (result result' : List ArrowZSet × JoinCache) : Prop :=
  List.Forall₂ ArrowZSet.Alike result.1 result'.1 ∧
    ∀ key, (store.writeBatch (op.appendState result.2.state).1).lookup key =
      (store.writeBatch (op.appendState result'.2.state).1).lookup key

/-- A join that loads keys on demand runs as one that restored everything first, as long as no key
with persisted rows is updated before an epoch mentions it on the other side. -/
theorem demand_loaded_equals_loaded {op : JoinOp} {store : Store}
    {epochs : List (ArrowZSet × ArrowZSet)}
    (arity : op.rightKeyCols.length = op.leftKeyCols.length) (wellKeyed : op.WellKeyed store)
    (covered : op.Covered store epochs) : ∃ full, op.restoreInPlace store.scan .new = .ok full ∧
      Simulates (op.SameRun store)
        (Loop.run op.processEpochWithStorage (JoinCache.new.setDb store.scan) epochs)
        (Loop.run op.processEpochWithStorage full epochs) ∧
      Simulates (op.SameRun store) (Loop.run op.processEpochWithStorage full epochs)
        (Loop.run op.processEpochWithStorage (JoinCache.new.setDb store.scan) epochs) := by
  refine ⟨_, restoreInPlace_new op store, ?_, ?_⟩
  · refine (Simulates.run (op.RunBeside store) ArrowZSet.Alike (runBeside_start op store)
      fun done epoch rest cache full split beside => ?_).weaken fun result result' related => ?_
    · exact lazy_simulates_full wellKeyed arity (covered done epoch rest split) beside
    · exact ⟨related.1, related.2.toBeside.lookup_appendState⟩
  · refine (Simulates.run (fun done full cache => op.RunBeside store done cache full)
      (fun output output' => ArrowZSet.Alike output' output) (runBeside_start op store)
      fun done epoch rest full cache split beside => ?_).weaken fun result result' related => ?_
    · exact full_simulates_lazy wellKeyed arity (covered done epoch rest split) beside
    · refine ⟨?_, fun key => (related.2.toBeside.lookup_appendState key).symm⟩
      exact related.1.imp fun output output' alike => ⟨alike.1.symm, alike.2.symm⟩

/-! ## Runs beside each other -/

theorem covered_of_paired {epochs : List (ArrowZSet × ArrowZSet)}
    (paired : ∀ epoch ∈ epochs, (∀ row ∈ op.leftDelta epoch, ∃ other ∈ op.rightDelta epoch,
        other.1.joinKey = row.1.joinKey) ∧
      ∀ row ∈ op.rightDelta epoch, ∃ other ∈ op.leftDelta epoch,
        other.1.joinKey = row.1.joinKey) : op.Covered store epochs := by
  intro done epoch rest split
  obtain ⟨left, right⟩ := paired epoch (by rw [split]; simp)
  refine ⟨fun row mem _ => ?_, fun row mem _ => ?_⟩
  · obtain ⟨other, inside, same⟩ := left row mem
    exact ⟨epoch, by simp, other, inside, same⟩
  · obtain ⟨other, inside, same⟩ := right row mem
    exact ⟨epoch, by simp, other, inside, same⟩

/-- A persisted left row is deleted while its key arrives on the right. -/
def pairedEpochs : List (ArrowZSet × ArrowZSet) :=
  [(sampleBatch [((some 1, 10), -1)], sampleBatch [((some 1, 21), 1)])]

theorem demand_loaded_equals_loaded_sample : ∃ outputs state stored full,
    Loop.run sampleOp.handle (.new, ∅) sampleEvents = .ok (outputs, (state, stored)) ∧
      sampleOp.restoreInPlace (Store.scan stored) .new = .ok full ∧
      Simulates (sampleOp.SameRun stored)
        (Loop.run sampleOp.processEpochWithStorage (JoinCache.new.setDb (Store.scan stored))
          pairedEpochs) (Loop.run sampleOp.processEpochWithStorage full pairedEpochs) := by
  obtain ⟨⟨outputs, state, stored⟩, ran, _⟩ := exists_ok_of_any
    (Loop.run sampleOp.handle (.new, ∅) sampleEvents) (fun _ => true) (by decide +kernel)
  have wellKeyed := wellKeyed_run rfl (fun _ _ _ => rfl) (elsewhere_sampleEvents sampleOp.opId) ran
  obtain ⟨full, restored, simulates, _⟩ := demand_loaded_equals_loaded rfl wellKeyed
    (show sampleOp.Covered stored pairedEpochs from covered_of_paired (by decide +kernel))
  exact ⟨outputs, state, stored, full, ran, restored, simulates⟩

def runWeights (op : JoinOp) (cache : JoinCache) (epochs : List (ArrowZSet × ArrowZSet)) :
    Option (List (List Int)) :=
  (Loop.run op.processEpochWithStorage cache epochs).toOption.map fun result =>
    result.1.map fun batch => batch.rows.map Prod.snd

/-- A persisted left row is deleted before its key is loaded on the left. The lazy join keeps it
with weight minus one, and a right row that arrives later joins with that. -/
theorem unloaded_row_deleted_twice : ∃ outputs state stored full, Loop.run sampleOp.handle (.new, ∅)
        [.epoch (sampleBatch [((some 1, 10), 1)], sampleBatch []), .persist] =
      .ok (outputs, (state, stored)) ∧ sampleOp.restoreInPlace (Store.scan stored) .new = .ok full ∧
    sampleOp.runWeights full [(sampleBatch [((some 1, 10), -1)], sampleBatch []),
        (sampleBatch [], sampleBatch [((some 1, 20), 1)])] = some [[], []] ∧
    sampleOp.runWeights (JoinCache.new.setDb (Store.scan stored))
        [(sampleBatch [((some 1, 10), -1)], sampleBatch []),
          (sampleBatch [], sampleBatch [((some 1, 20), 1)])] = some [[], [-1]] := by
  obtain ⟨⟨outputs, state, stored⟩, ran, tested⟩ := exists_ok_of_any
    (Loop.run sampleOp.handle (.new, ∅)
      [.epoch (sampleBatch [((some 1, 10), 1)], sampleBatch []), .persist])
    (fun result => decide (
      sampleOp.runWeights
          ⟨readBack result.2.2 sampleOp.opId, some (Store.scan result.2.2), true, ∅, ∅⟩
          [(sampleBatch [((some 1, 10), -1)], sampleBatch []),
            (sampleBatch [], sampleBatch [((some 1, 20), 1)])] = some [[], []] ∧
      sampleOp.runWeights (JoinCache.new.setDb (Store.scan result.2.2))
          [(sampleBatch [((some 1, 10), -1)], sampleBatch []),
            (sampleBatch [], sampleBatch [((some 1, 20), 1)])] = some [[], [-1]]))
    (by decide +kernel)
  exact ⟨outputs, state, stored, _, ran, restoreInPlace_new sampleOp stored,
    of_decide_eq_true tested⟩

end JoinOp

end RockStream
