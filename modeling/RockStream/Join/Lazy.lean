import RockStream.Join.Persist

/-!
Contract: demand loading of the inner join (`process_epoch_with_storage`).

Before an epoch, the keys of the left delta are loaded into the right arrangement and
the keys of the right delta into the left one: the sides the deltas probe. The sides
they update are not loaded.

Owns:
- `insertPersisted`, `ensureArrangementKeyLoaded`, `loadArrangementKeys` and
  `processEpochWithStorage`;
- what loading the records of a key leaves, by lookups;
- `WellKeyed`, the keys of a join's records encode tuples of its arity, so that a scan
  for one key finds the rows of that key.

Does not own: the comparison with a fully loaded join, and the amplification counters.
-/

namespace RockStream

open Lib Loop ShardKeyEncoder List

variable {side : JoinSide} {opId : UInt64} {op : JoinOp} {rows : List (List Cell × Int)}
  {row : Entry × Int}

variable {joinKey : Bytes} {keyCols : List Nat}

/-! ## Loading one key -/

/-- `insert_persisted`: a record becomes a row of weight one, unless the row is held already. -/
def Arrangement.insertPersisted (arr : Arrangement) (stateBytes : Nat) (entry : Entry) :
    Arrangement × Nat :=
  let bucket := (arr.lookup entry.joinKey).getD ∅
  match bucket.lookup entry.rowId with
  | some _ => (arr, stateBytes)
  | none =>
    let keyBytes := if arr.lookup entry.joinKey = none then entry.joinKey.length else 0
    (arr.insert entry.joinKey (bucket.insert entry.rowId ⟨entry.rowBytes, 1⟩),
      stateBytes + keyBytes + (16 + 8 + entry.rowBytes.length))

/-- The loop body of `ensure_arrangement_key_loaded`: dirty rows are newer than their records. -/
def Arrangement.loadEntry (joinKey : Bytes) (dirty : HashSet (Bytes × BitVec 128))
    (current : Arrangement × Nat) (record : Bytes × Bytes) : Arrangement × Nat :=
  if record.1.length < 11 + 16 then
    current
  else
    let rowId := BitVec.ofNat 128 (Bytes.ofBeBytes (record.1.drop (record.1.length - 16)))
    if (joinKey, rowId) ∈ dirty then current
    else current.1.insertPersisted current.2 ⟨joinKey, rowId, record.2⟩

def JoinState.arr (state : JoinState) : JoinSide → Arrangement
  | .left => state.leftArr
  | .right => state.rightArr

def JoinState.dirty (state : JoinState) : JoinSide → HashSet (Bytes × BitVec 128)
  | .left => state.dirtyLeft
  | .right => state.dirtyRight

def JoinCache.loadedKeys (cache : JoinCache) : JoinSide → HashSet Bytes
  | .left => cache.loadedLeftKeys
  | .right => cache.loadedRightKeys

def JoinCache.install (cache : JoinCache) (side : JoinSide) (joinKey : Bytes)
    (loaded : Arrangement × Nat) : JoinCache :=
  match side with
  | .left => { cache with
      state := { cache.state with leftArr := loaded.1, stateBytes := loaded.2 }
      loadedLeftKeys := cache.loadedLeftKeys.insert joinKey () }
  | .right => { cache with
      state := { cache.state with rightArr := loaded.1, stateBytes := loaded.2 }
      loadedRightKeys := cache.loadedRightKeys.insert joinKey () }

def JoinCache.onState (cache : JoinCache)
    (call : JoinState → Step JoinState (ArrowZSet × JoinState)) :
    Step JoinCache (ArrowZSet × JoinCache) :=
  match call cache.state with
  | .ok (output, state) => .ok (output, { cache with state })
  | .error (fault, state) => .error (fault, { cache with state })

namespace JoinOp

def ensureArrangementKeyLoaded (op : JoinOp) (side : JoinSide) (cache : JoinCache)
    (joinKey : Bytes) : Step JoinCache JoinCache :=
  if cache.stateLoaded then
    pure cache
  else
    match cache.db with
    | none => pure cache
    | some db =>
      if joinKey ∈ cache.loadedKeys side then
        pure cache
      else do
        let entries ← Exec.within cache
          (scanRecords db (joinArrKeyPrefix side op.opId joinKey))
        pure (cache.install side joinKey
          (entries.foldl (Arrangement.loadEntry joinKey (cache.state.dirty side))
            (cache.state.arr side, cache.state.stateBytes)))

def deltaKeys (rows : List (List Cell × Int)) (keyCols : List Nat) : Exec (HashSet Bytes) :=
  rows.foldlM (fun keys row => do
    match ← extractKey row.1 keyCols with
    | some joinKey => pure (keys.insert joinKey ())
    | none => pure keys) ∅

def loadArrangementKeys (op : JoinOp) (side : JoinSide) (cache : JoinCache) (delta : ArrowZSet)
    (keyCols : List Nat) : Step JoinCache JoinCache :=
  if cache.stateLoaded ∨ cache.db.isNone then
    pure cache
  else do
    let keys ← Exec.within cache (deltaKeys delta.rows keyCols)
    keys.keys.foldlM (op.ensureArrangementKeyLoaded side) cache

def processEpochWithStorage (op : JoinOp) (cache : JoinCache) (epoch : ArrowZSet × ArrowZSet) :
    Step JoinCache (ArrowZSet × JoinCache) := do
  let rightLoaded ← op.loadArrangementKeys .right cache epoch.1 op.leftKeyCols
  let bothLoaded ← op.loadArrangementKeys .left rightLoaded epoch.2 op.rightKeyCols
  bothLoaded.onState fun state => op.processEpoch state epoch

end JoinOp

/-! ## What a load leaves, by lookups -/

namespace Arrangement

/-- A held row, or the record of a row that is not dirty. -/
def overlay (held : Option ArrRow) (isDirty : Bool) (stored : Option Bytes) : Option ArrRow :=
  held.or (if isDirty then none else stored.map (⟨·, 1⟩))

theorem find_insertPersisted (arr : Arrangement) (stateBytes : Nat) (entry : Entry)
    (joinKey : Bytes) (rowId : BitVec 128) :
    (arr.insertPersisted stateBytes entry).1.find joinKey rowId =
      if joinKey = entry.joinKey ∧ rowId = entry.rowId
      then (arr.find joinKey rowId).or (some ⟨entry.rowBytes, 1⟩) else arr.find joinKey rowId := by
  unfold insertPersisted
  simp only
  rw [← find_eq_getD]
  cases found : arr.find entry.joinKey entry.rowId with
  | some row =>
    by_cases same : joinKey = entry.joinKey ∧ rowId = entry.rowId
    · simp [same.1, same.2, found]
    · simp [same]
  | none =>
    rw [find_insert, HashMap.lookup_insert_eq, ← find_eq_getD]
    by_cases sameKey : joinKey = entry.joinKey
    · by_cases sameId : rowId = entry.rowId
      · simp [sameKey, sameId, found]
      · simp [sameKey, sameId]
    · simp [sameKey]

theorem find_loadEntry {dirty : HashSet (Bytes × BitVec 128)}
    (current : Arrangement × Nat) {record : Bytes × Bytes} {stored : BitVec 128}
    (isKey : record.1 = joinArrKey side opId joinKey stored) (otherKey : Bytes)
    (rowId : BitVec 128) : (loadEntry joinKey dirty current record).1.find otherKey rowId =
      if otherKey = joinKey ∧ rowId = stored
      then overlay (current.1.find otherKey rowId) (decide ((joinKey, stored) ∈ dirty))
        (some record.2) else current.1.find otherKey rowId := by
  have decoded := (decodeArrKey_eq_some (isKey ▸ joinArrOpPrefix_isPrefix side opId joinKey stored)
    (joinKey, stored)).mpr isKey
  unfold decodeArrKey at decoded
  split at decoded
  · cases decoded
  · next long =>
    have sameId : BitVec.ofNat 128 (Bytes.ofBeBytes (record.1.drop (record.1.length - 16))) =
        stored := (Prod.mk.inj (Option.some.inj decoded)).2
    unfold loadEntry overlay
    rw [if_neg long]
    simp only [sameId]
    by_cases isDirty : (joinKey, stored) ∈ dirty
    · simp [isDirty]
    · simp only [isDirty, if_false, decide_false, Bool.false_eq_true, Option.map_some]
      exact find_insertPersisted current.1 current.2 _ otherKey rowId

theorem find_foldl_loadEntry (dirty : HashSet (Bytes × BitVec 128)) (start : Arrangement × Nat)
    {records : List (Bytes × Bytes)}
    (ofKey : ∀ record ∈ records, ∃ rowId, record.1 = joinArrKey side opId joinKey rowId)
    (otherKey : Bytes) (rowId : BitVec 128) :
    (records.foldl (loadEntry joinKey dirty) start).1.find otherKey rowId = if otherKey = joinKey
      then overlay (start.1.find otherKey rowId) (decide ((joinKey, rowId) ∈ dirty))
        (recordOf records (joinArrKey side opId joinKey rowId))
      else start.1.find otherKey rowId := by
  induction records generalizing start with
  | nil => simp [overlay, recordOf]
  | cons record rest ih =>
    obtain ⟨stored, isKey⟩ := ofKey record mem_cons_self
    rw [foldl_cons, ih _ fun other mem => ofKey other (mem_cons_of_mem _ mem),
      find_loadEntry _ isKey]
    by_cases sameKey : otherKey = joinKey
    · subst sameKey
      by_cases sameId : rowId = stored
      · subst sameId
        -- the first record of a row stays
        by_cases isDirty : (otherKey, rowId) ∈ dirty <;> simp [overlay, recordOf, isKey, isDirty]
      · have other : record.1 ≠ joinArrKey side opId otherKey rowId := by
          intro isOther
          have same : (otherKey, stored) = (otherKey, rowId) :=
            joinArrKey_injective (isKey.symm.trans isOther)
          exact sameId (Prod.mk.inj same).2.symm
        simp [sameId, recordOf, other]
    · simp [sameKey]

end Arrangement

/-! ## The keys a join writes -/

namespace JoinOp

/-- The records of a join: their keys are encodings of its arity. -/
def WellKeyed (op : JoinOp) (store : Store) : Prop :=
  ∀ side key, joinArrOpPrefix side op.opId <+: key → store.lookup key ≠ none →
    ∃ joinKey rowId, KeyCapsule.Encodes op.leftKeyCols.length joinKey ∧
      key = joinArrKey side op.opId joinKey rowId

/-- A scan for one key finds the rows of that key: no encoding continues another. -/
theorem WellKeyed.ofKey {store : Store} (wellKeyed : op.WellKeyed store)
    (encodes : KeyCapsule.Encodes op.leftKeyCols.length joinKey) (side : JoinSide) :
    ∀ record ∈ store.under (joinArrKeyPrefix side op.opId joinKey),
      ∃ rowId, record.1 = joinArrKey side op.opId joinKey rowId := by
  intro record mem
  obtain ⟨stored, heads⟩ := Store.mem_under.mp mem
  have opHeads : joinArrOpPrefix side op.opId <+: record.1 :=
    (prefix_append _ _).trans heads
  obtain ⟨otherKey, rowId, otherEncodes, isKey⟩ :=
    wellKeyed side record.1 opHeads (by rw [stored]; exact Option.some_ne_none _)
  obtain ⟨rest, same⟩ := heads
  rw [isKey, joinArrKeyPrefix, joinArrKey, append_assoc, append_assoc] at same
  have sameKey := (encodes.append_inj otherEncodes (append_cancel_left same)).1
  exact ⟨rowId, by rw [isKey, sameKey]⟩

/-- No encoding starts another one of its arity; a scan for a key finds the stored rows of that key;
and in every format version the filter is asked for what it kept of such a row. -/
theorem join_keys_scannable {store : Store} (wellKeyed : op.WellKeyed store) (side : JoinSide)
    {values : List KeyValue} (arity : values.length = op.leftKeyCols.length)
    (framed : ∀ value ∈ values, value.Framed) :
    let joinKey := KeyCapsule.typedBytesOf values
    let start := joinArrKeyPrefix side op.opId joinKey
    (∀ others : List KeyValue, others.length = values.length → (∀ value ∈ others, value.Framed) →
      others ≠ values → ¬ joinKey <+: KeyCapsule.typedBytesOf others) ∧
    (∀ key record, (key, record) ∈ store.under start ↔
      store.lookup key = some record ∧ ∃ rowId, key = joinArrKey side op.opId joinKey rowId) ∧
    ∀ magic ∈ [[], V2_KEY_MAGIC, V3_KEY_MAGIC], ∀ rowId,
      prefixLen (.prefixOf (magic ++ start)) = some (magic ++ start).length ∧
        prefixLen (.point (magic ++ joinArrKey side op.opId joinKey rowId)) =
          some (magic ++ start).length := by
  intro joinKey start
  have encodes : KeyCapsule.Encodes _ joinKey := ⟨values, arity, framed, rfl⟩
  refine ⟨fun others length othersFramed apart heads => ?_, fun key record => ⟨fun mem => ?_, ?_⟩,
    fun magic listed rowId => ?_⟩
  · obtain ⟨rest, same⟩ := heads
    have sameKey := (encodes.append_inj ⟨others, length.trans arity, othersFramed, rfl⟩
      (same.trans (append_nil _).symm)).1
    exact apart (KeyCapsule.typedBytesOf_append_inj othersFramed framed (by decide)
      (sameKey.symm.trans (append_nil _).symm)).1
  · exact ⟨(Store.mem_under.mp mem).1, wellKeyed.ofKey encodes side _ mem⟩
  · rintro ⟨stored, rowId, rfl⟩
    exact Store.mem_under.mpr ⟨stored, prefix_append _ _⟩
  · have nonempty : joinKey ≠ [] := by
      unfold joinKey KeyCapsule.typedBytesOf
      split <;> exact cons_ne_nil _ _
    exact prefixLen_joinArrKey listed side op.opId nonempty rowId

/-- The key of a left row of the operator 7. -/
def sampleRowKey (number : Int64) (rowId : BitVec 128) : Bytes :=
  joinArrKey .left 7 (KeyCapsule.typedBytesOf [.int64 number]) rowId

/-- In a store with rows of two keys a scan for one of them finds its row alone. -/
theorem join_keys_scannable_two_keys :
    let store : Store := ((∅ : Store).insert (sampleRowKey 5 1) [1]).insert (sampleRowKey 6 2) [2]
    let start := joinArrKeyPrefix .left 7 (KeyCapsule.typedBytesOf [.int64 5])
    ¬ KeyCapsule.typedBytesOf [.int64 5] <+: KeyCapsule.typedBytesOf [.int64 6] ∧
    (sampleRowKey 5 1, [1]) ∈ store.under start ∧
    ∀ record, (sampleRowKey 6 2, record) ∉ store.under start := by
  intro store start
  have framed (number : Int64) : ∀ value ∈ [KeyValue.int64 number], value.Framed := by
    simp [KeyValue.Framed, KeyValue.payload]
  have wellKeyed : (⟨7, [0], [0], 1, 1⟩ : JoinOp).WellKeyed store := by
    intro side key heads stored
    have isRow : key = sampleRowKey 6 2 ∨ key = sampleRowKey 5 1 := by
      by_contra! other
      rw [HashMap.lookup_insert_eq, if_neg other.1, HashMap.lookup_insert_eq, if_neg other.2]
        at stored
      exact stored rfl
    cases side with
    | left =>
      rcases isRow with rfl | rfl
      · exact ⟨_, 2, ⟨[.int64 6], rfl, framed 6, rfl⟩, rfl⟩
      · exact ⟨_, 1, ⟨[.int64 5], rfl, framed 5, rfl⟩, rfl⟩
    | right => rcases isRow with rfl | rfl <;> exact absurd heads (by decide +kernel)
  obtain ⟨apart, scan, -⟩ := join_keys_scannable wellKeyed .left rfl (framed 5)
  have noPrefix := apart [.int64 6] rfl (framed 6) (by decide)
  refine ⟨noPrefix, (scan _ _).mpr ⟨by decide +kernel, 1, rfl⟩, fun record mem => ?_⟩
  obtain ⟨-, rowId, same⟩ := (scan _ _).mp mem
  have heads : start <+: sampleRowKey 6 2 := same ▸ prefix_append _ _
  exact absurd heads (by decide +kernel)

theorem encodes_of_extractKey {cells : List Cell}
    (extracted : extractKey cells keyCols = .ok (some joinKey)) :
    KeyCapsule.Encodes keyCols.length joinKey := by
  obtain ⟨capsule, built, ended⟩ := bind_eq_ok.mp extracted
  have isKey : (if capsule.containsNull then none else some capsule.typedBytes) = some joinKey :=
    Except.ok.inj ended
  split at isKey
  · cases isKey
  · cases isKey
    exact keyCapsule_encodes built

def Mentions (rows : List (List Cell × Int)) (keyCols : List Nat) (joinKey : Bytes) : Prop :=
  ∃ row ∈ rows, extractKey row.1 keyCols = .ok (some joinKey)

theorem mentions_of_mem_staged
    (mem : row ∈ op.staged keyCols rows) : Mentions rows keyCols row.1.joinKey := by
  obtain ⟨input, inside, produced⟩ := mem_filterMap.mp mem
  refine ⟨input, inside, ?_⟩
  split at produced
  · next entry staged =>
    cases produced
    obtain ⟨slot, extracted, ended⟩ := bind_eq_ok.mp staged
    cases slot with
    | none => cases ended
    | some joinKey =>
      obtain ⟨bytes, _, ended⟩ := bind_eq_ok.mp ended
      cases ended
      exact extracted
  · cases produced

theorem encodes_of_mem_staged
    (mem : row ∈ op.staged keyCols rows) : KeyCapsule.Encodes keyCols.length row.1.joinKey := by
  obtain ⟨input, _, extracted⟩ := mentions_of_mem_staged mem
  exact encodes_of_extractKey extracted

/-- The keys of the dirty rows are encodings of the join's arity, and so are those in the store. -/
structure Keyed (op : JoinOp) (state : JoinState) (store : Store) : Prop where
  dirty : ∀ side, ∀ row ∈ state.dirty side, KeyCapsule.Encodes op.leftKeyCols.length row.1
  records : op.WellKeyed store
  leftEmpty : state.leftStaged.rows = []
  rightEmpty : state.rightStaged.rows = []

section Keyed

variable {state next : JoinState} {store : Store}

private theorem encodes_of_drained {side final : Arranged} {rows : List (Entry × Int)} {arity : Nat}
    (drained : Arranged.Drained side final rows)
    (old : ∀ row ∈ side.dirty, KeyCapsule.Encodes arity row.1)
    (new : ∀ row ∈ rows, KeyCapsule.Encodes arity row.1.joinKey) :
    ∀ row ∈ final.dirty, KeyCapsule.Encodes arity row.1 := by
  intro row isDirty
  rcases (drained.dirty row).mp isDirty with before | ⟨staged, mem, rfl⟩
  · exact old row before
  · exact new staged mem

theorem Keyed.epoch {deltas : ArrowZSet × ArrowZSet} {output : ArrowZSet}
    (arity : op.rightKeyCols.length = op.leftKeyCols.length) (keyed : op.Keyed state store)
    (done : op.processEpoch state deltas = .ok (output, next)) : op.Keyed next store := by
  have spec := processEpoch_eq_ok keyed.leftEmpty keyed.rightEmpty done
  refine ⟨fun side => ?_, keyed.records, spec.leftEmpty, spec.rightEmpty⟩
  cases side with
  | left =>
    obtain ⟨_, final, drained, _, isDirty⟩ := spec.leftDrained
    show ∀ row ∈ next.dirtyLeft, _
    rw [isDirty]
    exact encodes_of_drained (Arranged.drained_of_drain drained) (keyed.dirty .left)
      fun row mem => encodes_of_mem_staged mem
  | right =>
    obtain ⟨_, final, drained, _, isDirty⟩ := spec.rightDrained
    show ∀ row ∈ next.dirtyRight, _
    rw [isDirty]
    exact encodes_of_drained (Arranged.drained_of_drain drained) (keyed.dirty .right)
      fun row mem => arity ▸ encodes_of_mem_staged mem

private theorem wellKeyed_rowMutations {arr : Arrangement}
    {dirty : HashSet (Bytes × BitVec 128)} (wellKeyed : op.WellKeyed store)
    (encodes : ∀ row ∈ dirty, KeyCapsule.Encodes op.leftKeyCols.length row.1) :
    op.WellKeyed (store.writeBatch (Arrangement.rowMutations side op.opId arr dirty)) := by
  intro otherSide key heads stored
  by_cases isRow : ∃ row ∈ dirty, key = joinArrKey side op.opId row.1 row.2
  · obtain ⟨row, isDirty, rfl⟩ := isRow
    have sides := joinArrOpPrefix_inj heads
      (joinArrOpPrefix_isPrefix side op.opId row.1 row.2)
    exact ⟨row.1, row.2, encodes row isDirty, by rw [sides.1]⟩
  · refine wellKeyed otherSide key heads ?_
    rwa [store.lookup_writeBatch_of_ne] at stored
    intro mutation mem same
    obtain ⟨row, isDirty, rfl⟩ := mem_map.mp mem
    exact isRow ⟨row, AList.mem_keys.mpr isDirty,
      same.trans (Arrangement.key_rowMutation side op.opId arr row)⟩

theorem Keyed.persist (keyed : op.Keyed state store) :
    op.Keyed (op.appendState state).2 (store.writeBatch (op.appendState state).1) := by
  refine ⟨fun side row isDirty => ?_, ?_, keyed.leftEmpty, keyed.rightEmpty⟩
  · cases side <;> exact absurd isDirty (AList.notMem_empty row)
  · rw [appendState, Store.writeBatch_append]
    exact wellKeyed_rowMutations (wellKeyed_rowMutations keyed.records (keyed.dirty .left))
      (keyed.dirty .right)

theorem Keyed.others {mutations : List StateMutation} (keyed : op.Keyed state store)
    (elsewhere : (Event.others mutations).Elsewhere op.opId) :
    op.Keyed state (store.writeBatch mutations) := by
  refine { keyed with records := fun side key heads stored => keyed.records side key heads ?_ }
  rwa [store.lookup_writeBatch_of_ne] at stored
  intro mutation mem same
  exact elsewhere mutation mem side (same ▸ heads)

/-- Every history leaves a store whose keys are encodings. -/
theorem wellKeyed_run {stored : Store} {events : List Event} {outputs : List (Option ArrowZSet)}
    (arity : op.rightKeyCols.length = op.leftKeyCols.length) (unwritten : Unwritten op.opId store)
    (elsewhere : ∀ event ∈ events, event.Elsewhere op.opId)
    (ran : Loop.run op.handle (.new, store) events = .ok (outputs, (state, stored))) :
    op.WellKeyed stored := by
  suffices keyed : op.Keyed state stored from keyed.records
  refine run_invariant
    (fun done _ current => (∀ event ∈ done, event.Elsewhere op.opId) → op.Keyed current.1 current.2)
    ?_ (fun _ => ?_) ran elsewhere
  · intro done _ current event output next held stepped stillElsewhere
    have keyed := held fun other mem => stillElsewhere other (by simp [mem])
    cases event with
    | epoch deltas =>
      obtain ⟨⟨batch, after⟩, processed, ended⟩ := bind_eq_ok.mp stepped
      cases ended
      exact keyed.epoch arity processed
    | persist =>
      cases stepped
      exact keyed.persist
    | restart =>
      cases stepped
      refine ⟨fun side row isDirty => ?_, keyed.records, rfl, rfl⟩
      cases side <;> exact absurd isDirty (AList.notMem_empty row)
    | others mutations =>
      cases stepped
      exact keyed.others (stillElsewhere _ (by simp))
  · exact ⟨fun side row isDirty => by cases side <;> exact absurd isDirty (AList.notMem_empty row),
      fun side key heads stored => absurd (unwritten side key heads) stored, rfl, rfl⟩

end Keyed

end JoinOp

end RockStream
