import RockStream.Exec
import RockStream.Lib.Bytes
import RockStream.Lib.HashMap

/-!
Contract: the shard store as operators see it.

A store is a finite map from byte keys to byte values. Operators read single keys, scan
the keys that start with given bytes, and hand lists of mutations to the caller, which
writes them as one batch.

Owns:
- `ShardKeyEncoder`, the keys of an operator's records, and their injectivity;
- `prefixLen`, the part of a key that a Bloom filter keeps;
- `StateMutation` and the effect of a written batch;
- `ShardReader` and `ShardScan`, reads that may fail.

Does not own: merge operands, which no modelled operator produces, which key format
version the physical store has, and the durability of a written batch.
-/

namespace RockStream

open Lib List

/-- The namespaces of a shard (`ShardPrefix`) that the modelled operators use. -/
inductive ShardPrefix where
  | opState
deriving DecidableEq, Repr

def ShardPrefix.asByte : ShardPrefix → UInt8
  | .opState => 0x01

/-- `ShardKeyEncoder::encode`: prefix byte, operator id, suffix. -/
def ShardKeyEncoder.encode (space : ShardPrefix) (operatorId : UInt64) (suffix : Bytes) : Bytes :=
  space.asByte :: (Bytes.beBytes 8 operatorId.toNat ++ suffix)

/-! ## Keys of join state -/

inductive JoinSide where
  | left
  | right
deriving DecidableEq, Repr

def JoinSide.discBytes : JoinSide → Bytes
  | .left => [0x4A, 0x4C]
  | .right => [0x4A, 0x52]

namespace ShardKeyEncoder

/-- The header of a family of records: prefix byte, two discriminator bytes, operator id. -/
def opHeader (discriminator : Bytes) (opId : UInt64) : Bytes :=
  ShardPrefix.opState.asByte :: (discriminator ++ Bytes.beBytes 8 opId.toNat)

def joinArrOpPrefix (side : JoinSide) (opId : UInt64) : Bytes := opHeader side.discBytes opId

def joinArrKeyPrefix (side : JoinSide) (opId : UInt64) (joinKey : Bytes) : Bytes :=
  opHeader side.discBytes opId ++ joinKey

def joinArrKey (side : JoinSide) (opId : UInt64) (joinKey : Bytes) (rowId : BitVec 128) : Bytes :=
  opHeader side.discBytes opId ++ joinKey ++ Bytes.beBytes 16 rowId.toNat

theorem opHeader_length (discriminator : Bytes) (opId : UInt64) :
    (opHeader discriminator opId).length = discriminator.length + 9 := by
  simp [opHeader]

@[simp] theorem joinArrOpPrefix_length (side : JoinSide) (opId : UInt64) :
    (joinArrOpPrefix side opId).length = 11 := by
  cases side <;> exact opHeader_length _ opId

theorem opHeader_inj {first second : Bytes} {firstId secondId : UInt64} {key : Bytes}
    (width : first.length = second.length) (firstHeads : opHeader first firstId <+: key)
    (secondHeads : opHeader second secondId <+: key) : first = second ∧ firstId = secondId := by
  have sameLength : (opHeader first firstId).length = (opHeader second secondId).length := by
    rw [opHeader_length, opHeader_length, width]
  have same : opHeader first firstId = opHeader second secondId :=
    (prefix_of_prefix_length_le firstHeads secondHeads sameLength.le).eq_of_length sameLength
  have parts := append_inj (cons.inj same).2 width
  refine ⟨parts.1, UInt64.toNat_inj.mp (Bytes.beBytes_injective ?_ ?_ parts.2)⟩
  · exact firstId.toNat_lt
  · exact secondId.toNat_lt

theorem joinArrOpPrefix_isPrefix (side : JoinSide) (opId : UInt64) (joinKey : Bytes)
    (rowId : BitVec 128) : joinArrOpPrefix side opId <+: joinArrKey side opId joinKey rowId := by
  unfold joinArrKey
  rw [append_assoc]
  exact prefix_append _ _

/-- The arrangements of two sides or two operators share no key. -/
theorem joinArrOpPrefix_inj {first second : JoinSide} {firstId secondId : UInt64} {key : Bytes}
    (firstHeads : joinArrOpPrefix first firstId <+: key)
    (secondHeads : joinArrOpPrefix second secondId <+: key) :
    first = second ∧ firstId = secondId := by
  have parts := opHeader_inj (by cases first <;> cases second <;> rfl) firstHeads secondHeads
  refine ⟨?_, parts.2⟩
  cases first <;> cases second <;> first | rfl | exact absurd parts.1 (by decide)

theorem joinArrKey_injective {side : JoinSide} {opId : UInt64} {left right : Bytes × BitVec 128}
    (same : joinArrKey side opId left.1 left.2 = joinArrKey side opId right.1 right.2) :
    left = right := by
  have parts := append_inj' same (by simp)
  have sameKey := append_cancel_left parts.1
  have sameId := Bytes.beBytes_injective (by simpa using left.2.isLt) (by simpa using right.2.isLt)
    parts.2
  exact Prod.ext sameKey (BitVec.eq_of_toNat_eq sameId)

/-! ## Prefixes for the Bloom filter -/

def V2_KEY_MAGIC : Bytes := [0xFF, 0x56, 0x32]

def V3_KEY_MAGIC : Bytes := [0xFF, 0x56, 0x33]

inductive PrefixTarget where
  | point (key : Bytes)
  | prefixOf (key : Bytes)

/-- The key without the magic of its format version. -/
def logicalKey (key : Bytes) : Bytes :=
  ((key.dropPrefix? V2_KEY_MAGIC).or (key.dropPrefix? V3_KEY_MAGIC)).getD key

def isJoinArrangement (logical : Bytes) : Bool :=
  [JoinSide.left, .right].any fun side =>
    logical.take 3 == ShardPrefix.opState.asByte :: side.discBytes

/-- `JoinArrangementPrefixExtractor::prefix_len`. -/
def prefixLen : PrefixTarget → Option Nat
  | .point key =>
    if isJoinArrangement (logicalKey key) && 27 ≤ (logicalKey key).length
    then some (key.length - 16) else some key.length
  | .prefixOf key =>
    if isJoinArrangement (logicalKey key) && 11 < (logicalKey key).length
    then some key.length else none

theorem logicalKey_joinArr {magic : Bytes} (listed : magic ∈ [[], V2_KEY_MAGIC, V3_KEY_MAGIC])
    (side : JoinSide) (opId : UInt64) (rest : Bytes) :
    let logical := opHeader side.discBytes opId ++ rest
    logicalKey (magic ++ logical) = logical ∧ isJoinArrangement logical = true := by
  simp only [mem_cons, not_mem_nil, or_false] at listed
  rcases listed with rfl | rfl | rfl <;> cases side <;> exact ⟨rfl, rfl⟩

theorem prefixLen_joinArrKey {magic joinKey : Bytes}
    (listed : magic ∈ [[], V2_KEY_MAGIC, V3_KEY_MAGIC]) (side : JoinSide) (opId : UInt64)
    (nonempty : joinKey ≠ []) (rowId : BitVec 128) :
    let start := magic ++ joinArrKeyPrefix side opId joinKey
    prefixLen (.prefixOf start) = some start.length ∧
      prefixLen (.point (magic ++ joinArrKey side opId joinKey rowId)) = some start.length := by
  have positive := length_pos_iff.mpr nonempty
  have header : (opHeader side.discBytes opId).length = 11 := joinArrOpPrefix_length side opId
  simp only [joinArrKey, joinArrKeyPrefix, append_assoc, prefixLen, logicalKey_joinArr listed,
    length_append, header, Bytes.beBytes_length, Bool.true_and, decide_eq_true_eq]
  rw [if_pos (by omega), if_pos (by omega)]
  exact ⟨rfl, congrArg some (by omega)⟩

end ShardKeyEncoder

/-! ## Mutations and reads -/

inductive StateMutation where
  | put (key value : Bytes)
  | delete (key : Bytes)
deriving DecidableEq, Repr

def StateMutation.sizeBytes : StateMutation → Nat
  | .put key value => key.length + value.length
  | .delete key => key.length

def StateMutation.key : StateMutation → Bytes
  | .put key _ => key
  | .delete key => key

/-- A put, or a delete where nothing is kept. -/
def StateMutation.keep (key : Bytes) (record : Option Bytes) : StateMutation :=
  record.elim (.delete key) (.put key)

abbrev Store := HashMap Bytes Bytes

/-- `ShardDb::get`: the record of a key, or a failed read with its message. -/
abbrev ShardReader := Bytes → Except String (Option Bytes)

/-- `ShardDb::scan_prefix`: the records whose keys start with the given bytes. -/
abbrev ShardScan := Bytes → Except String (List (Bytes × Bytes))

namespace Store

def reader (store : Store) : ShardReader := fun key => .ok (store.lookup key)

/-- The records whose keys start with the given bytes. The source sorts them by key; nothing here
depends on their order. -/
def under (store : Store) (start : Bytes) : List (Bytes × Bytes) :=
  store.toPairs.filter fun record => start.isPrefixOf record.1

def scan (store : Store) : ShardScan := fun start => .ok (store.under start)

theorem mem_under {store : Store} {start key value : Bytes} :
    (key, value) ∈ store.under start ↔ store.lookup key = some value ∧ start <+: key := by
  simp [under]

theorem nodup_under (store : Store) (start : Bytes) : ((store.under start).map Prod.fst).Nodup :=
  store.nodup_keys.sublist ((filter_sublist).map Prod.fst)

def apply (store : Store) : StateMutation → Store
  | .put key value => store.insert key value
  | .delete key => store.erase key

def writeBatch (store : Store) (mutations : List StateMutation) : Store :=
  mutations.foldl apply store

theorem lookup_apply_of_ne (store : Store) {mutation : StateMutation} {key : Bytes}
    (apart : key ≠ mutation.key) : (store.apply mutation).lookup key = store.lookup key := by
  cases mutation with
  | put written value => exact AList.lookup_insert_ne apart
  | delete written => exact AList.lookup_erase_ne apart

theorem writeBatch_append (store : Store) (first second : List StateMutation) :
    store.writeBatch (first ++ second) = (store.writeBatch first).writeBatch second :=
  foldl_append

theorem lookup_writeBatch_of_ne (store : Store) {mutations : List StateMutation} {key : Bytes}
    (apart : ∀ mutation ∈ mutations, key ≠ mutation.key) :
    (store.writeBatch mutations).lookup key = store.lookup key := by
  unfold writeBatch
  induction mutations generalizing store with
  | nil => rfl
  | cons mutation mutations ih =>
    rw [foldl_cons, ih _ fun other mem => apart other (by simp [mem])]
    exact store.lookup_apply_of_ne (apart mutation (by simp))

/-- A batch that writes what one function says of each listed item leaves that in the store, and
other keys as they were. -/
theorem lookup_writeBatch_map {ι : Type} [DecidableEq ι] {key : ι → Bytes}
    {mutation : ι → StateMutation} {value : ι → Option Bytes}
    (keyInjective : ∀ left right, key left = key right → left = right)
    (writes : ∀ (store : Store) item query, (store.apply (mutation item)).lookup query =
        if query = key item then value item else store.lookup query)
    (store : Store) (items : List ι) (item : ι) :
    (store.writeBatch (items.map mutation)).lookup (key item) =
      if item ∈ items then value item else store.lookup (key item) := by
  unfold writeBatch
  induction items generalizing store with
  | nil => rfl
  | cons head tail ih =>
    rw [map_cons, foldl_cons, ih, writes]
    by_cases inTail : item ∈ tail
    · simp [inTail]
    · by_cases same : item = head
      · subst same
        simp
      · have apart : key item ≠ key head := fun sameKey => same (keyInjective _ _ sameKey)
        simp [inTail, same, apart]

theorem lookup_apply_keep (store : Store) (key : Bytes) (record : Option Bytes) (query : Bytes) :
    (store.apply (.keep key record)).lookup query =
      if query = key then record else store.lookup query := by
  cases record with
  | none => exact HashMap.lookup_erase_eq store _ _
  | some value => exact HashMap.lookup_insert_eq store _ _ value

end Store

end RockStream
