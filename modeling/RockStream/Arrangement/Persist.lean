import RockStream.Arrangement.Agree
import RockStream.Storage

/-!
Contract: arrangements in the shard store.

Both join operators keep one record per arranged row, under the row's join key and id.
The record holds the row's bytes and not its weight: `append_state` writes it while the
weight is positive, and every load gives it weight one.

Owns:
- `rowMutation`, what `append_state` writes for a dirty row;
- `decodeArrKey` and `loadArr`, what a restore reads back;
- `Mirrors`, the store holds every row that is not dirty, and its preservation;
- the arrangement a restore finds, by lookups.

Does not own: which rows an operator marks dirty.
-/

namespace RockStream

open Lib ShardKeyEncoder List

namespace Arrangement

variable {side : JoinSide} {opId : UInt64} {arr : Arrangement} {store : Store}
  {dirty : HashSet (Bytes × BitVec 128)}

/-! ## Writing -/

def persisted (stored : Option ArrRow) : Option Bytes :=
  stored.bind fun row => if 0 < row.weight then some row.rowBytes else none

def rowMutation (side : JoinSide) (opId : UInt64) (arr : Arrangement) (row : Bytes × BitVec 128) :
    StateMutation :=
  let key := joinArrKey side opId row.1 row.2
  match arr.find row.1 row.2 with
  | some arrRow => if 0 < arrRow.weight then .put key arrRow.rowBytes else .delete key
  | none => .delete key

def rowMutations (side : JoinSide) (opId : UInt64) (arr : Arrangement)
    (dirty : HashSet (Bytes × BitVec 128)) : List StateMutation :=
  dirty.keys.map (rowMutation side opId arr)

theorem key_rowMutation (side : JoinSide) (opId : UInt64) (arr : Arrangement)
    (row : Bytes × BitVec 128) :
    (rowMutation side opId arr row).key = joinArrKey side opId row.1 row.2 := by
  unfold rowMutation
  split
  · split <;> rfl
  · rfl

theorem lookup_apply_rowMutation (side : JoinSide) (opId : UInt64) (arr : Arrangement)
    (store : Store) (row : Bytes × BitVec 128) (query : Bytes) :
    (store.apply (rowMutation side opId arr row)).lookup query =
      if query = joinArrKey side opId row.1 row.2 then persisted (arr.find row.1 row.2)
      else store.lookup query := by
  unfold rowMutation
  cases arr.find row.1 row.2 with
  | none => exact HashMap.lookup_erase_eq _ _ _
  | some arrRow =>
    simp only [persisted, Option.bind_some]
    split
    · exact HashMap.lookup_insert_eq _ _ _ _
    · exact HashMap.lookup_erase_eq _ _ _

/-- The keys of a drained dirty set lie under the arrangement's header. -/
theorem isPrefix_of_mem_rowMutations {mutation : StateMutation}
    (mem : mutation ∈ rowMutations side opId arr dirty) :
    joinArrOpPrefix side opId <+: mutation.key := by
  obtain ⟨row, _, rfl⟩ := mem_map.mp mem
  rw [key_rowMutation]
  exact joinArrOpPrefix_isPrefix side opId row.1 row.2

/-! ## Reading -/

/-- The join key and row id after the eleven bytes of a header; `none` for a key that is too
short to hold both. -/
def decodeArrKey (key : Bytes) : Option (Bytes × BitVec 128) :=
  if key.length < 11 + 16 then
    none
  else
    some ((key.take (key.length - 16)).drop 11,
      BitVec.ofNat 128 (Bytes.ofBeBytes (key.drop (key.length - 16))))

/-- The loop body of `JoinOp::load_from_storage`: a record becomes a row of weight one. -/
def loadRecord (arr : Arrangement) (record : Bytes × Bytes) : Arrangement :=
  match decodeArrKey record.1 with
  | none => arr
  | some (joinKey, rowId) =>
    arr.insert joinKey (((arr.lookup joinKey).getD ∅).insert rowId ⟨record.2, 1⟩)

def loadArr (records : List (Bytes × Bytes)) : Arrangement := records.foldl loadRecord ∅

theorem decodeArrKey_eq_some {key : Bytes} (heads : joinArrOpPrefix side opId <+: key)
    (row : Bytes × BitVec 128) :
    decodeArrKey key = some row ↔ key = joinArrKey side opId row.1 row.2 := by
  obtain ⟨rest, rfl⟩ := heads
  have length : (joinArrOpPrefix side opId ++ rest).length = 11 + rest.length := by simp
  constructor
  · intro decoded
    unfold decodeArrKey at decoded
    split at decoded
    · cases decoded
    · next long =>
      cases decoded
      have split : rest = rest.take (rest.length - 16) ++ rest.drop (rest.length - 16) :=
        (take_append_drop _ _).symm
      have tail : (joinArrOpPrefix side opId ++ rest).drop
          ((joinArrOpPrefix side opId ++ rest).length - 16) = rest.drop (rest.length - 16) := by
        rw [length, show 11 + rest.length - 16 =
          (joinArrOpPrefix side opId).length + (rest.length - 16) by simp; omega,
          drop_append]
        simp
      have middle : ((joinArrOpPrefix side opId ++ rest).take
          ((joinArrOpPrefix side opId ++ rest).length - 16)).drop 11 =
            rest.take (rest.length - 16) := by
        rw [length, show 11 + rest.length - 16 =
          (joinArrOpPrefix side opId).length + (rest.length - 16) by simp; omega,
          take_length_add_append]
        exact drop_left' (joinArrOpPrefix_length side opId)
      have sixteen : (rest.drop (rest.length - 16)).length = 16 := by simp; omega
      have small := Bytes.ofBeBytes_lt (rest.drop (rest.length - 16))
      rw [sixteen] at small
      have encoded := Bytes.beBytes_ofBeBytes (rest.drop (rest.length - 16))
      rw [sixteen] at encoded
      simp only [tail, middle, joinArrKey, BitVec.toNat_ofNat]
      rw [Nat.mod_eq_of_lt (by simpa using small), encoded, append_assoc, ← split]
      rfl
  · intro isKey
    have rests : rest = row.1 ++ Bytes.beBytes 16 row.2.toNat := by
      unfold joinArrKey at isKey
      rw [append_assoc] at isKey
      exact append_cancel_left isKey
    subst rests
    unfold decodeArrKey
    rw [length, if_neg (by simp; omega)]
    have small : row.2.toNat < 256 ^ 16 := by simpa using row.2.isLt
    simp only [length_append, Bytes.beBytes_length]
    rw [show 11 + (row.1.length + 16) - 16 = (joinArrOpPrefix side opId ++ row.1).length by
      simp; omega, ← append_assoc, take_left, drop_left,
      drop_left' (joinArrOpPrefix_length side opId), Bytes.ofBeBytes_beBytes,
      Nat.mod_eq_of_lt small, BitVec.ofNat_toNat, BitVec.setWidth_eq]

def recordOf (records : List (Bytes × Bytes)) (key : Bytes) : Option Bytes :=
  (records.find? fun record => record.1 = key).map Prod.snd

theorem recordOf_under {start key : Bytes} (heads : start <+: key) :
    recordOf (store.under start) key = store.lookup key := by
  unfold recordOf
  cases found : (store.under start).find? fun record => record.1 = key with
  | some record =>
    have isKey : record.1 = key := by simpa using find?_some found
    have stored := (Store.mem_under.mp (mem_of_find?_eq_some found)).1
    rw [← isKey, stored]
    rfl
  | none =>
    cases stored : store.lookup key with
    | none => rfl
    | some value =>
      have mem := Store.mem_under.mpr ⟨stored, heads⟩
      exact absurd (decide_eq_true rfl) (find?_eq_none.mp found _ mem)

/-- The arrangement holds the records read so far, each with weight one. -/
def Loaded (side : JoinSide) (opId : UInt64) (records : List (Bytes × Bytes))
    (arr : Arrangement) : Prop :=
  ∀ joinKey rowId, arr.find joinKey rowId =
    (recordOf records (joinArrKey side opId joinKey rowId)).map (⟨·, 1⟩)

theorem Loaded.step {done : List (Bytes × Bytes)} {next : Arrangement} {record : Bytes × Bytes}
    (loaded : Loaded side opId done arr) (heads : joinArrOpPrefix side opId <+: record.1)
    (fresh : record.1 ∉ done.map Prod.fst) (skipped : decodeArrKey record.1 = none → next = arr)
    (stored : ∀ row, decodeArrKey record.1 = some row → ∀ joinKey rowId, next.find joinKey rowId =
      if (joinKey, rowId) = row then some ⟨record.2, 1⟩ else arr.find joinKey rowId) :
    Loaded side opId (done ++ [record]) next := by
  intro joinKey rowId
  have grown : recordOf (done ++ [record]) (joinArrKey side opId joinKey rowId) =
      if record.1 = joinArrKey side opId joinKey rowId then some record.2
      else recordOf done (joinArrKey side opId joinKey rowId) := by
    unfold recordOf
    rw [find?_append]
    split
    · next isKey =>
      have absent : (done.find? fun other => other.1 = joinArrKey side opId joinKey rowId) =
          none := by
        rw [find?_eq_none]
        intro other mem sameKey
        rw [decide_eq_true_eq, ← isKey] at sameKey
        exact fresh (sameKey ▸ mem_map_of_mem mem)
      rw [absent]
      simp [isKey]
    · next notKey => simp [notKey]
  rw [grown]
  cases decoded : decodeArrKey record.1 with
  | none =>
    have notKey : record.1 ≠ joinArrKey side opId joinKey rowId := by
      intro isKey
      rw [(decodeArrKey_eq_some heads (joinKey, rowId)).mpr isKey] at decoded
      cases decoded
    rw [skipped decoded, if_neg notKey, loaded joinKey rowId]
  | some row =>
    rw [stored row decoded joinKey rowId]
    have isRow : (joinKey, rowId) = row ↔ record.1 = joinArrKey side opId joinKey rowId := by
      rw [← decodeArrKey_eq_some heads (joinKey, rowId), decoded, Option.some.injEq, eq_comm]
    by_cases same : (joinKey, rowId) = row
    · rw [if_pos same, if_pos (isRow.mp same)]
      rfl
    · rw [if_neg same, if_neg (fun isKey => same (isRow.mpr isKey)), loaded joinKey rowId]

theorem find_loadRecord {record : Bytes × Bytes} {row : Bytes × BitVec 128}
    (decoded : decodeArrKey record.1 = some row) (joinKey : Bytes) (rowId : BitVec 128) :
    (loadRecord arr record).find joinKey rowId =
      if (joinKey, rowId) = row then some ⟨record.2, 1⟩ else arr.find joinKey rowId := by
  unfold loadRecord
  rw [decoded]
  rw [find_insert, HashMap.lookup_insert_eq, ← find_eq_getD]
  simp only [Prod.ext_iff]
  by_cases sameKey : joinKey = row.1 <;> simp [sameKey]

private theorem loaded_foldl {records : List (Bytes × Bytes)}
    (heads : ∀ record ∈ records, joinArrOpPrefix side opId <+: record.1)
    (distinct : (records.map Prod.fst).Nodup) : Loaded side opId records (loadArr records) := by
  induction records using reverseRecOn with
  | nil => exact fun _ _ => rfl
  | append_singleton done record ih =>
    rw [map_append, map_singleton, nodup_append] at distinct
    unfold loadArr at ih ⊢
    rw [foldl_append, foldl_cons, foldl_nil]
    refine (ih (fun other mem => heads other (by simp [mem]))
      distinct.1).step (heads record (by simp)) ?_ ?_ ?_
    · intro mem
      exact distinct.2.2 _ mem _ (by simp) rfl
    · intro skipped
      rw [loadRecord, skipped]
    · intro row decoded
      exact find_loadRecord decoded

theorem find_loadArr (store : Store) (side : JoinSide) (opId : UInt64) (joinKey : Bytes)
    (rowId : BitVec 128) : (loadArr (store.under (joinArrOpPrefix side opId))).find joinKey rowId =
      (store.lookup (joinArrKey side opId joinKey rowId)).map (⟨·, 1⟩) := by
  have heads : ∀ record ∈ store.under (joinArrOpPrefix side opId),
      joinArrOpPrefix side opId <+: record.1 := fun record mem => (Store.mem_under.mp mem).2
  rw [loaded_foldl heads (store.nodup_under _) joinKey rowId,
    recordOf_under (joinArrOpPrefix_isPrefix side opId joinKey rowId)]

/-! ## The store mirrors the arrangement -/

/-- The store keeps every row that is not dirty. -/
def Mirrors (side : JoinSide) (opId : UInt64) (arr : Arrangement)
    (dirty : HashSet (Bytes × BitVec 128)) (store : Store) : Prop :=
  ∀ row, row ∉ dirty →
    store.lookup (joinArrKey side opId row.1 row.2) = persisted (arr.find row.1 row.2)

theorem Mirrors.drain {before after : Arranged} {rows : List (Entry × Int)}
    (mirrors : Mirrors side opId before.arr before.dirty store)
    (drained : Arranged.Drained before after rows) :
    Mirrors side opId after.arr after.dirty store := by
  intro row clean
  rw [drained.dirty, not_or] at clean
  rw [mirrors row clean.1, drained.kept]
  intro staged mem same
  exact clean.2 ⟨staged, mem, same⟩

theorem Mirrors.of_lookup_eq {next : Store} (mirrors : Mirrors side opId arr dirty store)
    (same : ∀ key, joinArrOpPrefix side opId <+: key → next.lookup key = store.lookup key) :
    Mirrors side opId arr dirty next := by
  intro row clean
  rw [same _ (joinArrOpPrefix_isPrefix side opId row.1 row.2)]
  exact mirrors row clean

theorem lookup_rowMutations (side : JoinSide) (opId : UInt64) (arr : Arrangement)
    (dirty : HashSet (Bytes × BitVec 128)) (store : Store) (row : Bytes × BitVec 128) :
    (store.writeBatch (rowMutations side opId arr dirty)).lookup
        (joinArrKey side opId row.1 row.2) = if row ∈ dirty then persisted (arr.find row.1 row.2)
      else store.lookup (joinArrKey side opId row.1 row.2) := by
  have keys : ∀ left right : Bytes × BitVec 128, joinArrKey side opId left.1 left.2 =
      joinArrKey side opId right.1 right.2 → left = right := fun _ _ => joinArrKey_injective
  rw [rowMutations, Store.lookup_writeBatch_map keys (lookup_apply_rowMutation side opId arr)]
  by_cases isDirty : row ∈ dirty
  · rw [if_pos isDirty, if_pos (AList.mem_keys.mp isDirty)]
  · rw [if_neg isDirty, if_neg (fun inside => isDirty (AList.mem_keys.mpr inside))]

theorem lookup_rowMutations_congr {other : Arrangement} {otherDirty : HashSet (Bytes × BitVec 128)}
    {otherStore : Store} (sameStore : ∀ key, store.lookup key = otherStore.lookup key)
    (sameDirty : ∀ row, row ∈ dirty ↔ row ∈ otherDirty)
    (sameRows : ∀ row ∈ dirty, arr.find row.1 row.2 = other.find row.1 row.2) (key : Bytes) :
    (store.writeBatch (rowMutations side opId arr dirty)).lookup key =
      (otherStore.writeBatch (rowMutations side opId other otherDirty)).lookup key := by
  by_cases isRow : ∃ row : Bytes × BitVec 128, key = joinArrKey side opId row.1 row.2
  · obtain ⟨row, rfl⟩ := isRow
    rw [lookup_rowMutations, lookup_rowMutations]
    by_cases isDirty : row ∈ dirty
    · rw [if_pos isDirty, if_pos ((sameDirty row).mp isDirty), sameRows row isDirty]
    · rw [if_neg isDirty, if_neg (fun inside => isDirty ((sameDirty row).mpr inside)), sameStore]
  · have apart : ∀ arr (dirty : HashSet (Bytes × BitVec 128)),
        ∀ mutation ∈ rowMutations side opId arr dirty, key ≠ mutation.key := by
      intro arr dirty mutation mem same
      obtain ⟨row, _, rfl⟩ := mem_map.mp mem
      exact isRow ⟨row, same.trans (key_rowMutation side opId arr row)⟩
    rw [store.lookup_writeBatch_of_ne (apart arr dirty),
      otherStore.lookup_writeBatch_of_ne (apart other otherDirty), sameStore]

theorem Mirrors.write (mirrors : Mirrors side opId arr dirty store) :
    Mirrors side opId arr ∅ (store.writeBatch (rowMutations side opId arr dirty)) := by
  intro row _
  rw [lookup_rowMutations]
  split
  · rfl
  · next clean => exact mirrors row clean

end Arrangement

end RockStream
