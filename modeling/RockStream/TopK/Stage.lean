import RockStream.TopK.Select

/-!
Contract: what one row does to a staged partition.

The entry of a row is in the buffer or among the spilled rows. Whatever branch a row
takes, the effect is the same: its entry gets the new net weight, or disappears, and
every other entry stays.

Owns:
- `StagedPart.live`, the entry of a row id, and `Effect`, the change a row makes;
- `applyRow_effect`, one inversion for all branches of the row loop;
- `Live`, the entries that represent an input, and its preservation;
- the records in the spill store, and the entries read back from them.

Does not own: which partitions are staged.
-/

namespace RockStream

open Lib Lib.Weighted List HashMap Bytes

variable {entry : BufferEntry} {part : PartitionState} {op : TopKOp} {rows more : RawRows}
  {partKey : Bytes} {id : RowId} {vals : List Int64} {next staged : StagedPart} {slot : UInt8}
  {db : Option Store}

namespace TopKOp

namespace StagedPart

def live (staged : StagedPart) (id : RowId) : Option BufferEntry :=
  (staged.part.buffer.lookup id).or (staged.spills.lookup id)

/-- The spilled entries are those of the spilled ids, and no id is in both places. -/
structure WellFormed (staged : StagedPart) : Prop where
  spilled : ∀ id, id ∈ staged.part.spilled ↔ (staged.spills.lookup id).isSome = true
  disjoint : ∀ id entry, staged.spills.lookup id = some entry → staged.part.buffer.lookup id = none

/-- The change one row makes: its entry is replaced, its record is written where it is spilled, and
everything else stays. -/
structure Effect (hasDb : Bool) (staged next : StagedPart) (key : Bytes) (id : RowId)
    (entry : Option BufferEntry) : Prop where
  wellFormed : next.WellFormed
  live : ∀ query, next.live query = if query = id then entry else staged.live query
  emitted : next.part.emitted = staged.part.emitted
  spills : ∀ query, query ≠ id → next.spills.lookup query = staged.spills.lookup query
  hasDb : (next.spills.lookup id).isSome = true →
    hasDb = true ∨ (staged.spills.lookup id).isSome = true
  record : ∀ (store : Store) stored, next.spills.lookup id = some stored →
    (store.writeBatch next.writes).lookup key = some (encodeTopkValue stored)
  otherRecords : ∀ (store : Store) query, query ≠ key →
    (store.writeBatch next.writes).lookup query = (store.writeBatch staged.writes).lookup query

variable {hasDb : Bool} {key : Bytes}

theorem effect_of_buffer (wellFormed : staged.WellFormed) (notSpilled : id ∉ staged.part.spilled)
    {entry : Option BufferEntry} (buffer : ∀ query, part.buffer.lookup query =
      if query = id then entry else staged.part.buffer.lookup query)
    (spilled : part.spilled = staged.part.spilled) (emitted : part.emitted = staged.part.emitted) :
    Effect hasDb staged { staged with part := part } key id entry := by
  have noSpill : staged.spills.lookup id = none := by
    rw [wellFormed.spilled] at notSpilled
    simpa using notSpilled
  refine ⟨⟨fun query => ?_, fun query stored isStored => ?_⟩, fun query => ?_, emitted,
    fun query _ => rfl, by simp [noSpill], by simp [noSpill], fun store query _ => rfl⟩
  · rw [spilled]
    exact wellFormed.spilled query
  · have ne : query ≠ id := by
      rintro rfl
      rw [show staged.spills.lookup query = some stored from isStored] at noSpill
      cases noSpill
    rw [buffer, if_neg ne]
    exact wellFormed.disjoint query stored isStored
  · unfold live
    rw [buffer]
    split
    · next same => rw [same, noSpill, Option.or_none]
    · rfl

theorem lookup_writeBatch_append (store : Store) (writes : List StateMutation)
    (mutation : StateMutation) (query : Bytes) :
    (store.writeBatch (writes ++ [mutation])).lookup query =
      ((store.writeBatch writes).apply mutation).lookup query := by
  simp [Store.writeBatch]

/-- A row that is written to the spill store and has no entry in the buffer. -/
theorem effect_spill (wellFormed : staged.WellFormed) {base : StagedPart}
    (buffer : ∀ query, base.part.buffer.lookup query =
      if query = id then none else staged.part.buffer.lookup query)
    (spilled : base.part.spilled = staged.part.spilled)
    (emitted : base.part.emitted = staged.part.emitted) (spills : base.spills = staged.spills)
    (writes : base.writes = staged.writes)
    (allowed : hasDb = true ∨ (staged.spills.lookup id).isSome = true) (entry : BufferEntry) :
    Effect hasDb staged (base.spill key id entry) key id (some entry) := by
  have nextSpills : ∀ query, (base.spill key id entry).spills.lookup query =
      if query = id then some entry else staged.spills.lookup query := by
    intro query
    show (base.spills.insert id entry).lookup query = _
    rw [lookup_insert_eq, spills]
  have nextRecords : ∀ (store : Store) query,
      (store.writeBatch (base.spill key id entry).writes).lookup query =
        if query = key then some (encodeTopkValue entry)
        else (store.writeBatch staged.writes).lookup query := by
    intro store query
    show (store.writeBatch (base.writes ++ [_])).lookup query = _
    rw [lookup_writeBatch_append, writes]
    exact lookup_insert_eq _ _ _ _
  refine ⟨⟨fun query => ?_, fun query stored isStored => ?_⟩, fun query => ?_, emitted,
    fun query ne => ?_, fun _ => allowed, fun store stored isStored => ?_,
    fun store query ne => ?_⟩
  · show query ∈ insert id base.part.spilled ↔ _
    rw [Finset.mem_insert, nextSpills, spilled, wellFormed.spilled]
    by_cases same : query = id <;> simp [same]
  · show base.part.buffer.lookup query = none
    rw [buffer]
    split
    · rfl
    · next ne =>
      rw [nextSpills, if_neg ne] at isStored
      exact wellFormed.disjoint query stored isStored
  · show (base.part.buffer.lookup query).or _ = _
    rw [nextSpills, buffer]
    split <;> rfl
  · rw [nextSpills, if_neg ne]
  · rw [nextSpills, if_pos rfl] at isStored
    rw [nextRecords, if_pos rfl, Option.some.inj isStored]
  · rw [nextRecords, if_neg ne]

theorem effect_unspill (wellFormed : staged.WellFormed)
    (notBuffered : staged.part.buffer.lookup id = none) : Effect hasDb staged
      { part := { staged.part with spilled := staged.part.spilled.erase id }
        spills := staged.spills.erase id
        writes := staged.writes ++ [.delete key] } key id none := by
  have erased := lookup_erase_eq staged.spills id
  refine ⟨⟨fun query => ?_, fun query stored isStored => ?_⟩, fun query => ?_, rfl,
    fun query ne => ?_, by simp [erased], by simp [erased], fun store query ne => ?_⟩
  · rw [Finset.mem_erase, erased, wellFormed.spilled]
    by_cases same : query = id <;> simp [same]
  · rw [erased] at isStored
    split at isStored
    · cases isStored
    · exact wellFormed.disjoint query stored isStored
  · unfold live
    rw [erased]
    split
    · next same =>
      rw [same, notBuffered]
      rfl
    · rfl
  · rw [erased, if_neg ne]
  · rw [lookup_writeBatch_append]
    show ((store.writeBatch staged.writes).erase key).lookup query = _
    rw [lookup_erase_eq, if_neg ne]

end StagedPart

/-! ## One row -/

theorem meets_addI64 (left right : Int) : Meets (fun _ => True) (addI64 left right) fun result =>
      result = left + right ∧ InI64 (left + right) :=
  Meets.intro fun _ returned => (addI64_eq_ok.mp returned).symm

/-- The entry of a row with a net weight; weight zero has none. -/
def entryOf (rankValue : Int64) (vals : List Int64) (net : Int) : Option BufferEntry :=
  if net = 0 then none else some ⟨rankValue, vals, net⟩

def StagedPart.netOf (staged : StagedPart) (id : RowId) : Int :=
  ((staged.live id).map BufferEntry.netWeight).getD 0

section Row

open StagedPart

variable {hasDb : Bool} {key : Bytes} {rankValue : Int64} {delta : Int}

variable (wellFormed : staged.WellFormed)
include wellFormed

private theorem applySpilled_effect :
    Meets (fun _ => True) (applySpilled staged key id rankValue vals delta) fun next =>
      InI64 (staged.netOf id + delta) ∧ Effect hasDb staged next key id
          (entryOf rankValue vals (staged.netOf id + delta)) := by
  unfold applySpilled
  cases found : staged.spills.lookup id with
  | none => trivial
  | some old =>
    have notBuffered := wellFormed.disjoint id old found
    have net : staged.netOf id = old.netWeight := by
      simp [netOf, live, notBuffered, found]
    rw [net]
    refine (meets_addI64 old.netWeight delta).bind ?_
    rintro _ ⟨rfl, fits⟩
    unfold entryOf
    split
    · exact Meets.pure ⟨fits, effect_unspill wellFormed notBuffered⟩
    · exact Meets.pure ⟨fits, effect_spill wellFormed
        (lookup_of_absent notBuffered) rfl rfl rfl rfl (.inr (by rw [found]; rfl)) _⟩

private theorem applyOccupied_effect (notSpilled : id ∉ staged.part.spilled) {old : BufferEntry}
    (found : staged.part.buffer.lookup id = some old) :
    Meets (fun _ => True) (applyOccupied hasDb staged key id rankValue vals delta old) fun next =>
      InI64 (staged.netOf id + delta) ∧ Effect hasDb staged next key id
          (entryOf rankValue vals (staged.netOf id + delta)) := by
  have net : staged.netOf id = old.netWeight := by
    simp [netOf, live, found]
  have erased := lookup_erase_eq staged.part.buffer id
  rw [net]
  refine (meets_addI64 old.netWeight delta).bind ?_
  rintro _ ⟨rfl, fits⟩
  unfold entryOf
  split
  · next crosses =>
    cases isDb : hasDb with
    | false => trivial
    | true =>
      rw [if_neg (Int.ne_of_gt crosses.2.1)]
      refine Meets.pure ⟨fits, ?_⟩
      apply effect_spill wellFormed
      · exact erased
      · rfl
      · rfl
      · rfl
      · rfl
      · exact .inl rfl
  · refine Meets.bind (Meets.intro fun _ _ => trivial) fun without _ => ?_
    split
    · exact Meets.pure ⟨fits, effect_of_buffer wellFormed notSpilled erased rfl rfl⟩
    · exact Meets.pure ⟨fits, effect_of_buffer wellFormed notSpilled
        (fun query => lookup_insert_eq _ id query _) rfl rfl⟩

private theorem applyVacant_effect
    (notSpilled : id ∉ staged.part.spilled) (found : staged.part.buffer.lookup id = none)
    (nonZero : delta ≠ 0) (fits : InI64 delta) :
    Meets (fun _ => True) (applyVacant hasDb staged key id rankValue vals delta) fun next =>
      InI64 (staged.netOf id + delta) ∧ Effect hasDb staged next key id
          (entryOf rankValue vals (staged.netOf id + delta)) := by
  have noSpill : staged.spills.lookup id = none := by
    rw [wellFormed.spilled] at notSpilled
    simpa using notSpilled
  have net : staged.netOf id = 0 := by
    simp [netOf, live, found, noSpill]
  rw [net, zero_add, entryOf, if_neg nonZero]
  unfold applyVacant
  split
  · exact Meets.ok ⟨fits, effect_of_buffer wellFormed notSpilled
      (fun query => lookup_insert_eq _ id query _) rfl rfl⟩
  split
  · cases isDb : hasDb with
    | false => trivial
    | true =>
      exact Meets.ok ⟨fits, effect_spill wellFormed
        (lookup_of_absent found) rfl rfl rfl rfl (.inl rfl) _⟩
  · exact Meets.ok ⟨fits, effect_of_buffer wellFormed notSpilled
      (fun query => lookup_insert_eq _ id query _) rfl rfl⟩

/-- One row: whatever the branch, its entry gets the new net weight. -/
theorem applyRow_effect (nonZero : delta ≠ 0) (fits : InI64 delta) :
    Meets (fun _ => True) (applyRow hasDb staged key id rankValue vals delta) fun next =>
      InI64 (staged.netOf id + delta) ∧ Effect hasDb staged next key id
          (entryOf rankValue vals (staged.netOf id + delta)) := by
  unfold applyRow
  split
  · exact applySpilled_effect wellFormed
  next notSpilled =>
  cases found : staged.part.buffer.lookup id with
  | some old => exact applyOccupied_effect wellFormed notSpilled found
  | none => exact applyVacant_effect wellFormed notSpilled found nonZero fits

end Row

/-! ## Entries that represent an input -/

/-- An entry is that of a row of the partition, with the row's accumulated weight. -/
structure IsEntry (op : TopKOp) (rows : RawRows) (partKey : Bytes) (id : RowId)
    (entry : BufferEntry) : Prop where
  id : rowIdHash entry.rowVals = id
  part : op.partitionOf entry.rowVals = partKey
  rank : entry.rankValue = op.rankOf entry.rowVals
  width : entry.rowVals.length = op.nInputCols
  net : entry.netWeight = weight rows entry.rowVals
  nonZero : entry.netWeight ≠ 0
  fits : InI64 entry.netWeight

theorem IsEntry.occurs (isEntry : op.IsEntry rows partKey id entry) :
    ∃ row ∈ rows, row.1 = entry.rowVals :=
  exists_of_weight_ne_zero (isEntry.net ▸ isEntry.nonZero)

/-- The live entries of a partition represent its rows. -/
structure Live (op : TopKOp) (rows : RawRows) (partKey : Bytes) (staged : StagedPart) : Prop where
  wellFormed : staged.WellFormed
  entries : ∀ id entry, staged.live id = some entry → op.IsEntry rows partKey id entry
  complete : ∀ vals, op.partitionOf vals = partKey → weight rows vals ≠ 0 →
    (staged.live (rowIdHash vals)).isSome = true

namespace Live

theorem rowVals_eq (live : op.Live rows partKey staged)
    (apart : KeysDistinguish rowIdHash (rows ++ more)) (occurs : ∃ row ∈ rows ++ more, row.1 = vals)
    (found : staged.live (rowIdHash vals) = some entry) : entry.rowVals = vals := by
  have isEntry := live.entries _ _ found
  obtain ⟨source, sourceMember, isSource⟩ := isEntry.occurs
  obtain ⟨row, mem, rfl⟩ := occurs
  rw [← isSource]
  refine apart source (by simp [sourceMember]) row mem ?_
  rw [isSource]
  exact isEntry.id

theorem netOf_eq (live : op.Live rows partKey staged)
    (apart : KeysDistinguish rowIdHash (rows ++ more))
    (occurs : ∃ row ∈ rows ++ more, row.1 = vals) (inPart : op.partitionOf vals = partKey) :
    staged.netOf (rowIdHash vals) = weight rows vals := by
  unfold StagedPart.netOf
  cases found : staged.live (rowIdHash vals) with
  | some entry =>
    show entry.netWeight = _
    rw [(live.entries _ _ found).net, live.rowVals_eq apart occurs found]
  | none =>
    have absent : weight rows vals = 0 := by
      by_contra present
      have isSome := live.complete vals inPart present
      rw [found] at isSome
      cases isSome
    rw [absent]
    rfl

theorem mem_entries (wellFormed : staged.WellFormed) :
    (id, entry) ∈ staged.part.buffer.toPairs ++ staged.spills.toPairs ↔
      staged.live id = some entry := by
  rw [mem_append, mem_toPairs, mem_toPairs]
  unfold StagedPart.live
  cases spilled : staged.spills.lookup id with
  | none => simp
  | some stored => simp [wellFormed.disjoint id stored spilled]

variable (live : op.Live rows partKey staged)
include live

theorem lists (apart : KeysDistinguish rowIdHash rows) :
    op.Lists rows partKey (staged.part.buffer.toPairs ++ staged.spills.toPairs) where
  nodup := by
    rw [map_append, nodup_append']
    refine ⟨nodup_keys _, nodup_keys _, fun id buffered spilled => ?_⟩
    obtain ⟨⟨_, stored⟩, isStored, rfl⟩ := mem_map.mp spilled
    obtain ⟨⟨_, entry⟩, isEntry, same⟩ := mem_map.mp buffered
    have absent := live.wellFormed.disjoint _ _ (mem_toPairs.mp isStored)
    dsimp only at same
    rw [← same, mem_toPairs.mp isEntry] at absent
    cases absent
  id := fun entry mem => (live.entries _ _ ((mem_entries live.wellFormed).mp mem)).id
  part := fun entry mem => (live.entries _ _ ((mem_entries live.wellFormed).mp mem)).part
  rank := fun entry mem => (live.entries _ _ ((mem_entries live.wellFormed).mp mem)).rank
  net := fun entry mem => (live.entries _ _ ((mem_entries live.wellFormed).mp mem)).net
  complete := fun vals inPart present => by
    obtain ⟨entry, found⟩ := Option.isSome_iff_exists.mp (live.complete vals inPart present)
    refine ⟨(rowIdHash vals, entry), (mem_entries live.wellFormed).mpr found, ?_⟩
    have all : KeysDistinguish rowIdHash (rows ++ []) := by simpa using apart
    exact live.rowVals_eq all (by simpa using exists_of_weight_ne_zero present) found

theorem congr {other : RawRows}
    (agree : ∀ vals, op.partitionOf vals = partKey → weight other vals = weight rows vals)
    (part : next.part = staged.part)
    (spills : ∀ id, next.spills.lookup id = staged.spills.lookup id) :
    op.Live other partKey next := by
  have sameLive : ∀ id, next.live id = staged.live id := by
    intro id
    unfold StagedPart.live
    rw [part, spills]
  refine ⟨⟨fun id => ?_, fun id entry found => ?_⟩, fun id entry found => ?_,
    fun vals inPart present => ?_⟩
  · rw [part, spills]
    exact live.wellFormed.spilled id
  · rw [spills] at found
    rw [part]
    exact live.wellFormed.disjoint id entry found
  · rw [sameLive] at found
    have isEntry := live.entries id entry found
    exact ⟨isEntry.id, isEntry.part, isEntry.rank, isEntry.width,
      isEntry.net.trans (agree _ isEntry.part).symm, isEntry.nonZero, isEntry.fits⟩
  · rw [sameLive]
    exact live.complete vals inPart (agree vals inPart ▸ present)

theorem effect {delta : Int} (apart : KeysDistinguish rowIdHash (rows ++ [(vals, delta)]))
    (inPart : op.partitionOf vals = partKey) (width : vals.length = op.nInputCols)
    (fits : InI64 (staged.netOf (rowIdHash vals) + delta)) {hasDb : Bool}
    {key : Bytes} (changed : StagedPart.Effect hasDb staged next key (rowIdHash vals)
      (entryOf (op.rankOf vals) vals (staged.netOf (rowIdHash vals) + delta))) :
    op.Live (rows ++ [(vals, delta)]) partKey next := by
  have occurs : ∃ row ∈ rows ++ [(vals, delta)], row.1 = vals := ⟨(vals, delta), by simp, rfl⟩
  have newNet : staged.netOf (rowIdHash vals) + delta = weight (rows ++ [(vals, delta)]) vals := by
    rw [live.netOf_eq apart occurs inPart]
    simp
  have sameOther : ∀ other, other ≠ vals →
      weight (rows ++ [(vals, delta)]) other = weight rows other := by
    intro other ne
    simp [Ne.symm ne]
  rw [newNet] at changed fits
  refine ⟨changed.wellFormed, fun id entry found => ?_, fun other otherPart present => ?_⟩
  · rw [changed.live] at found
    split at found
    · next same =>
      unfold entryOf at found
      split at found
      · cases found
      · next nonZero =>
        obtain rfl := Option.some.inj found
        exact ⟨same.symm, inPart, rfl, width, rfl, nonZero, fits⟩
    · next ne =>
      have isEntry := live.entries id entry found
      have notVals : entry.rowVals ≠ vals := by
        rintro rfl
        exact ne isEntry.id.symm
      exact ⟨isEntry.id, isEntry.part, isEntry.rank, isEntry.width,
        isEntry.net.trans (sameOther _ notVals).symm, isEntry.nonZero, isEntry.fits⟩
  · rw [changed.live]
    by_cases same : other = vals
    · rw [same] at present ⊢
      rw [if_pos rfl, entryOf, if_neg present]
      rfl
    · rw [sameOther other same] at present
      have isSome := live.complete other otherPart present
      rw [if_neg fun sameId => ?_]
      · exact isSome
      · obtain ⟨source, sourceMember, isOther⟩ := exists_of_weight_ne_zero present
        refine same ?_
        rw [← isOther]
        refine apart source (by simp [sourceMember]) (vals, delta) (by simp) ?_
        rw [isOther]
        exact sameId

end Live

/-! ## The spill store -/

theorem length_rowKey (vals : List Int64) : (rowKey vals).length = vals.length * 8 := by
  unfold rowKey
  induction vals with
  | nil => rfl
  | cons value vals ih =>
    rw [flatMap_cons, length_append, ih, ofInt64_length,
      length_cons]
    omega

theorem decodeTopkValue_encodeTopkValue (fits : InI64 entry.netWeight) :
    decodeTopkValue (encodeTopkValue entry) entry.rowVals.length = some entry := by
  have length : (encodeTopkValue entry).length = 16 + entry.rowVals.length * 8 := by
    simp only [encodeTopkValue, length_append, ofInt64_length, length_rowKey]
  have rank : (encodeTopkValue entry).take 8 = ofInt64 entry.rankValue := by
    rw [encodeTopkValue, append_assoc, take_left' (ofInt64_length _)]
  have afterRank : (encodeTopkValue entry).drop 8 =
      ofInt64 (Int64.ofInt entry.netWeight) ++ rowKey entry.rowVals := by
    rw [encodeTopkValue, append_assoc, drop_left' (ofInt64_length _)]
  have afterNet : (encodeTopkValue entry).drop 16 = rowKey entry.rowVals := by
    rw [show 16 = 8 + 8 from rfl, ← drop_drop, afterRank,
      drop_left' (ofInt64_length _)]
  have net : (Int64.ofInt entry.netWeight).toInt = entry.netWeight :=
    Int64.toInt_ofInt_of_le fits.1 fits.2
  unfold decodeTopkValue
  rw [if_neg (not_not.mpr length), rank, afterNet, afterRank,
    take_left' (ofInt64_length _), toInt64_ofInt64, toInt64_ofInt64, net,
    rowKey, words_flatMap_ofInt64]

def keyLength (op : TopKOp) : Nat := op.partitionBy.length * 8

theorem length_partitionOf (op : TopKOp) (vals : List Int64) :
    (op.partitionOf vals).length = op.keyLength := by
  rw [partitionOf, length_rowKey, length_map, keyLength]

theorem spillKey_inj {left right : Bytes} {leftId rightId : RowId}
    (lengths : left.length = right.length)
    (same : op.spillKey slot left leftId = op.spillKey slot right rightId) :
    left = right ∧ leftId = rightId := by
  unfold spillKey spillPartitionPrefix at same
  obtain ⟨prefixes, ids⟩ := append_inj same (by simp [lengths])
  refine ⟨(append_inj prefixes rfl).2, BitVec.eq_of_toNat_eq ?_⟩
  exact beBytes_injective leftId.isLt rightId.isLt ids

/-- The spilled entries are in the store, once the staged writes are applied. -/
def Stored (op : TopKOp) (db : Option Store) (slot : UInt8) (partKey : Bytes)
    (staged : StagedPart) : Prop :=
  ∀ id entry, staged.spills.lookup id = some entry → ∃ store, db = some store ∧
    (store.writeBatch staged.writes).lookup (op.spillKey slot partKey id) =
      some (encodeTopkValue entry)

theorem Stored.effect {entry : Option BufferEntry} (stored : op.Stored db slot partKey staged)
    (changed : StagedPart.Effect db.isSome staged next (op.spillKey slot partKey id) id entry) :
    op.Stored db slot partKey next := by
  intro query found isFound
  by_cases same : query = id
  · subst same
    have hasDb : db.isSome = true := by
      rcases changed.hasDb (by rw [isFound]; rfl) with attached | spilled
      · exact attached
      · obtain ⟨old, isOld⟩ := Option.isSome_iff_exists.mp spilled
        obtain ⟨store, isStore, _⟩ := stored query old isOld
        rw [isStore]
        rfl
    obtain ⟨store, isStore⟩ := Option.isSome_iff_exists.mp hasDb
    exact ⟨store, isStore, changed.record store found isFound⟩
  · rw [changed.spills query same] at isFound
    obtain ⟨store, isStore, record⟩ := stored query found isFound
    refine ⟨store, isStore, ?_⟩
    rw [changed.otherRecords store _ fun sameKey => same (spillKey_inj rfl sameKey).2]
    exact record

theorem Stored.congr (stored : op.Stored db slot partKey staged)
    (spills : ∀ id, next.spills.lookup id = staged.spills.lookup id)
    (untouched : ∀ (store : Store) id,
      (store.writeBatch next.writes).lookup (op.spillKey slot partKey id) =
        (store.writeBatch staged.writes).lookup (op.spillKey slot partKey id)) :
    op.Stored db slot partKey next := by
  intro id entry found
  rw [spills] at found
  obtain ⟨store, isStore, record⟩ := stored id entry found
  exact ⟨store, isStore, (untouched store id).trans record⟩

/-- What the read loop has collected: decoded records of spilled ids. -/
def ReadBack (op : TopKOp) (store : Store) (part : PartitionState) (start : Bytes)
    (entries : HashMap RowId BufferEntry) : Prop :=
  ∀ id entry, entries.lookup id = some entry → id ∈ part.spilled ∧ ∃ value,
    store.lookup (start ++ Bytes.beBytes 16 id.toNat) = some value ∧
      decodeTopkValue value op.nInputCols = some entry

theorem readRecord_readBack {store : Store} {start : Bytes}
    {entries : HashMap RowId BufferEntry} {record : Bytes × Bytes}
    (scanned : record ∈ scanPrefix store start) (readBack : op.ReadBack store part start entries) :
    Meets (fun _ => True) (op.readRecord part start entries record)
      (op.ReadBack store part start) := by
  obtain ⟨key, value⟩ := record
  obtain ⟨inStore, isPrefix⟩ := mem_filter.mp scanned
  have isStored : store.lookup key = some value := mem_toPairs.mp inStore
  obtain ⟨rest, rfl⟩ := isPrefixOf_iff_prefix.mp isPrefix
  unfold readRecord
  split
  · trivial
  next length =>
  rw [not_ne_iff, length_append] at length
  have restLength : rest.length = 16 := by omega
  have idBytes : beBytes 16 (BitVec.ofNat 128 (ofBeBytes rest)).toNat = rest := by
    have small := ofBeBytes_lt rest
    rw [restLength] at small
    rw [BitVec.toNat_ofNat, Nat.mod_eq_of_lt (show _ < 2 ^ 128 from small), ← restLength]
    exact beBytes_ofBeBytes rest
  dsimp only
  rw [drop_left]
  split
  · next spilled =>
    split
    · trivial
    · next entry decoded =>
      split
      · trivial
      · refine Meets.ok fun id found isFound => ?_
        rw [lookup_insert_eq] at isFound
        split at isFound
        · next same =>
          obtain rfl := Option.some.inj isFound
          rw [same]
          exact ⟨spilled, value, by rw [idBytes]; exact isStored, decoded⟩
        · exact readBack id found isFound
  · exact Meets.ok readBack

theorem readSpilled_spec {env : SpillEnv} (noWrites : staged.writes = [])
    (live : op.Live rows partKey staged) (stored : op.Stored db slot partKey staged) :
    Meets (fun _ => True) (op.readSpilled env db staged.part (op.spillPartitionPrefix slot partKey))
      fun entries => ∀ id, entries.lookup id = staged.spills.lookup id := by
  unfold readSpilled
  split
  · next none =>
    refine Meets.ok fun id => (Option.not_isSome_iff_eq_none.mp ?_).symm
    rw [← live.wellFormed.spilled, none]
    exact Finset.notMem_empty id
  cases isDb : db with
  | none => trivial
  | some store =>
    dsimp only
    split
    · trivial
    · refine Meets.bind (Meets.foldlM (fun _ => op.ReadBack store staged.part
        (op.spillPartitionPrefix slot partKey)) ?_ ?_) fun entries readBack => ?_
      · intro id entry found
        cases found
      · intro done record rest entries split readBack
        exact readRecord_readBack (by rw [split]; simp) readBack
      · split
        · next keys =>
          refine Meets.pure fun id => ?_
          have isKey : (entries.lookup id).isSome = true ↔
              (staged.spills.lookup id).isSome = true := by
            rw [← live.wellFormed.spilled, ← keys, mem_toFinset, AList.lookup_isSome,
              AList.mem_keys]
          cases found : entries.lookup id with
          | none =>
            rw [found] at isKey
            exact (Option.not_isSome_iff_eq_none.mp (mt isKey.mpr nofun)).symm
          | some entry =>
            rw [found] at isKey
            obtain ⟨original, isOriginal⟩ := Option.isSome_iff_exists.mp (isKey.mp rfl)
            obtain ⟨_, value, isValue, decoded⟩ := readBack id entry found
            obtain ⟨_, isStore, record⟩ := stored id original isOriginal
            rw [isDb] at isStore
            obtain rfl := Option.some.inj isStore
            rw [noWrites] at record
            have sameValue : value = encodeTopkValue original :=
              Option.some.inj (isValue.symm.trans record)
            have isLive : staged.live id = some original := by
              simp [StagedPart.live, live.wellFormed.disjoint id original isOriginal, isOriginal]
            have isEntry := live.entries id original isLive
            rw [sameValue, ← isEntry.width, decodeTopkValue_encodeTopkValue isEntry.fits]
              at decoded
            rw [isOriginal, decoded]
        · trivial

end TopKOp

end RockStream
