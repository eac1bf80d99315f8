import RockStream.TopK.Op
import RockStream.Lib.Multiplicity

/-!
Contract: the selection of the Top-K operator, and what it should select.

Owns:
- `Precedes`, the operator's total order on rows, and `ranked`, the rows of positive
  weight of a partition in that order;
- `topkWeight`, the multiplicity of a row among the first `k` rows of its partition;
- `countOf_selectTopk`, that the selection over a partition's live entries gives these
  multiplicities;
- `weight_emissions`, that a partition emits the change of its selection.

Does not own: how the live entries are maintained.
-/

namespace RockStream

open Lib Lib.Weighted Lib.Multiplicity List HashMap

variable {partKey : Bytes} {selected : HashMap RowId (List Int64 × Int)}

variable {vals : List Int64} {op : TopKOp} {rows : RawRows}

abbrev RawRows := List (List Int64 × Int)

namespace TopKOp

/-! ## The order of the rows -/

/-- A column of a row of full width, or zero where the operator has no such column. -/
def columnOf (op : TopKOp) (vals : List Int64) (col : Nat) : Int64 :=
  if col < op.nInputCols then vals.getD col 0 else 0

def rankOf (op : TopKOp) (vals : List Int64) : Int64 := op.columnOf vals op.rankCol

def partitionOf (op : TopKOp) (vals : List Int64) : Bytes :=
  rowKey (op.partitionBy.map (op.columnOf vals))

theorem column_eq (op : TopKOp) (width : vals.length = op.nInputCols) (col : Nat) :
    op.column vals col = .ok (op.columnOf vals col) := by
  unfold column columnOf
  split
  · next inside =>
    rw [← width] at inside
    rw [getElem?_eq_getElem inside, getD_eq_getElem?_getD, getElem?_eq_getElem inside]
    rfl
  · rfl

theorem partitionKeyBytes_eq (op : TopKOp) (width : vals.length = op.nInputCols) :
    op.partitionKeyBytes vals = .ok (op.partitionOf vals) := by
  unfold partitionKeyBytes partitionOf
  rw [Loop.mapM_of_ok fun col _ => op.column_eq width col]
  rfl

/-- Rank descending, then row bytes ascending. -/
abbrev Precedes (op : TopKOp) : List Int64 → List Int64 → Prop := ByRank op.rankOf rowKey

def ranked (op : TopKOp) (rows : RawRows) (partKey : Bytes) : List (List Int64) :=
  ((rows.map Prod.fst).dedup.filter fun vals =>
    op.partitionOf vals = partKey ∧ 0 < weight rows vals).insertionSort op.Precedes

theorem mem_ranked :
    vals ∈ op.ranked rows partKey ↔ op.partitionOf vals = partKey ∧ 0 < weight rows vals := by
  unfold ranked
  rw [mem_insertionSort, mem_filter, mem_dedup, decide_eq_true_eq]
  constructor
  · exact And.right
  · intro both
    obtain ⟨row, mem, isVals⟩ := exists_of_weight_ne_zero (Int.ne_of_gt both.2)
    exact ⟨isVals ▸ mem_map_of_mem mem, both⟩

theorem ranked_nodup (op : TopKOp) (rows : RawRows) (partKey : Bytes) :
    (op.ranked rows partKey).Nodup :=
  (perm_insertionSort op.Precedes _).nodup_iff.mpr ((nodup_dedup _).filter _)

theorem ranked_sorted (op : TopKOp) (rows : RawRows) (partKey : Bytes) :
    (op.ranked rows partKey).Pairwise op.Precedes :=
  pairwise_insertionSort op.Precedes _

theorem eq_ranked {list : List (List Int64)}
    (sorted : list.Pairwise op.Precedes) (nodup : list.Nodup)
    (members : ∀ vals, vals ∈ list ↔ op.partitionOf vals = partKey ∧ 0 < weight rows vals) :
    list = op.ranked rows partKey :=
  ByRank.eq_of_sorted (fun _ _ => rowKey_injective) sorted (op.ranked_sorted rows partKey) nodup
    (op.ranked_nodup rows partKey) fun vals => (members vals).trans mem_ranked.symm

/-- The multiplicity of a row among the first `k` rows of its partition, each row counted with its
weight. -/
def topkWeight (op : TopKOp) (rows : RawRows) (vals : List Int64) : Int :=
  (((expand (fun row => (weight rows row).toNat) (op.ranked rows (op.partitionOf vals))).take
    op.k).count vals : Nat)

theorem topkWeight_congr {other : RawRows}
    (agree : ∀ row, op.partitionOf row = op.partitionOf vals → weight rows row = weight other row) :
    op.topkWeight rows vals = op.topkWeight other vals := by
  have sameList : op.ranked rows (op.partitionOf vals) = op.ranked other (op.partitionOf vals) := by
    refine eq_ranked (op.ranked_sorted _ _) (op.ranked_nodup _ _) fun row => ?_
    rw [mem_ranked]
    exact and_congr_right fun inPart => by rw [agree row inPart]
  unfold topkWeight
  rw [sameList, expand_congr fun row mem => by rw [agree row (mem_ranked.mp mem).1]]

theorem topkWeight_eq_zero (absent : weight rows vals ≤ 0) : op.topkWeight rows vals = 0 := by
  unfold topkWeight
  rw [count_take_expand_of_not_mem fun inside => absurd (mem_ranked.mp inside).2 absent.not_gt]
  rfl

/-! ## The selection loop -/

/-- The loop gives every entry its share of the first rows, and leaves other ids alone. -/
theorem takeEntries_spec (count : List Int64 → Int) {entries : List (RowId × BufferEntry)}
    (ids : (entries.map Prod.fst).Nodup) (rows : (entries.map fun entry => entry.2.rowVals).Nodup)
    (weights : ∀ entry ∈ entries, entry.2.netWeight = count entry.2.rowVals ∧ 0 < entry.2.netWeight)
    (limit : Nat)
    (fresh : ∀ entry ∈ entries, selected.lookup entry.1 = none) : (∀ id, id ∉ entries.map Prod.fst →
      (takeEntries limit entries selected).lookup id = selected.lookup id) ∧ ∀ entry ∈ entries,
      countOf (takeEntries limit entries selected) entry.1 =
        (((expand (fun row => (count row).toNat) (entries.map fun entry => entry.2.rowVals)).take
          limit).count entry.2.rowVals : Nat) ∧
      ∀ found, (takeEntries limit entries selected).lookup entry.1 = some found →
        found.1 = entry.2.rowVals := by
  induction entries generalizing limit selected with
  | nil => simp [takeEntries]
  | cons head tail ih =>
    rw [map_cons, nodup_cons] at ids rows
    unfold takeEntries
    split
    · next exhausted =>
      have noLimit : limit = 0 := by exact_mod_cast exhausted
      refine ⟨fun id _ => rfl, fun entry mem => ⟨?_, fun found isFound => ?_⟩⟩
      · rw [countOf, fresh entry mem, noLimit]
        rfl
      · rw [fresh entry mem] at isFound
        cases isFound
    · obtain ⟨isCount, positive⟩ := weights head (by simp)
      have left : (limit : Int) - min head.2.netWeight limit =
          ((limit - (count head.2.rowVals).toNat : Nat) : Int) := by omega
      have freshTail : ∀ entry ∈ tail, (selected.insert head.1
          (head.2.rowVals, min head.2.netWeight limit)).lookup entry.1 = none := by
        intro entry mem
        have apart : entry.1 ≠ head.1 := by
          intro same
          exact ids.1 (same ▸ mem_map_of_mem mem)
        rw [lookup_insert_eq, if_neg apart, fresh entry (by simp [mem])]
      dsimp only
      rw [left]
      obtain ⟨others, taken⟩ := ih ids.2 rows.2
        (fun entry mem => weights entry (by simp [mem]))
        (limit - (count head.2.rowVals).toNat) freshTail
      refine ⟨fun id absent => ?_, fun entry mem => ?_⟩
      · rw [map_cons, mem_cons, not_or] at absent
        rw [others id absent.2, lookup_insert_eq, if_neg absent.1]
      · rcases mem_cons.mp mem with rfl | inTail
        · have found := others entry.1 ids.1
          rw [lookup_insert_eq, if_pos rfl] at found
          refine ⟨?_, fun other isOther => ?_⟩
          · rw [countOf, found, map_cons, count_take_expand_self rows.1]
            show min entry.2.netWeight (limit : Int) = _
            omega
          · rw [found] at isOther
            rw [← Option.some.inj isOther]
        · have ne : entry.2.rowVals ≠ head.2.rowVals := by
            intro same
            exact rows.1 (same ▸ mem_map_of_mem inTail)
          rw [map_cons, count_take_expand_of_ne _ ne]
          exact taken entry inTail

/-- The live entries of a partition: one for each row of non-zero weight, with that weight. -/
structure Lists (op : TopKOp) (rows : RawRows) (partKey : Bytes)
    (entries : List (RowId × BufferEntry)) : Prop where
  nodup : (entries.map Prod.fst).Nodup
  id : ∀ entry ∈ entries, rowIdHash entry.2.rowVals = entry.1
  part : ∀ entry ∈ entries, op.partitionOf entry.2.rowVals = partKey
  rank : ∀ entry ∈ entries, entry.2.rankValue = op.rankOf entry.2.rowVals
  net : ∀ entry ∈ entries, entry.2.netWeight = weight rows entry.2.rowVals
  complete : ∀ vals, op.partitionOf vals = partKey → weight rows vals ≠ 0 →
    ∃ entry ∈ entries, entry.2.rowVals = vals

def shownCount (selected : HashMap RowId (List Int64 × Int)) (vals : List Int64) : Int :=
  match selected.lookup (rowIdHash vals) with
  | some found => if found.1 = vals then found.2 else 0
  | none => 0

section Selection

variable {part : PartitionState} {spills : HashMap RowId BufferEntry}

def sortedEntries (part : PartitionState) (spills : HashMap RowId BufferEntry) :
    List (RowId × BufferEntry) :=
  ((part.buffer.toPairs ++ spills.toPairs).filter fun entry => 0 < entry.2.netWeight).insertionSort
    Ahead

theorem mem_sortedEntries {entry : RowId × BufferEntry} : entry ∈ sortedEntries part spills ↔
      entry ∈ part.buffer.toPairs ++ spills.toPairs ∧ 0 < entry.2.netWeight := by
  unfold sortedEntries
  rw [mem_insertionSort, mem_filter, decide_eq_true_eq]

section

variable (lists : op.Lists rows partKey (part.buffer.toPairs ++ spills.toPairs))
include lists

theorem Lists.nodup_sortedEntries :
    ((sortedEntries part spills).map Prod.fst).Nodup := by
  unfold sortedEntries
  rw [((perm_insertionSort Ahead _).map Prod.fst).nodup_iff]
  exact lists.nodup.sublist (filter_sublist.map Prod.fst)

theorem Lists.rowVals_sortedEntries :
    (sortedEntries part spills).map (fun entry => entry.2.rowVals) = op.ranked rows partKey := by
  refine eq_ranked ?_ ?_ fun vals => ?_
  · rw [pairwise_map]
    refine (pairwise_insertionSort Ahead _).imp_of_mem fun leftIn rightIn ahead => ?_
    have leftRank := lists.rank _ (mem_sortedEntries.mp leftIn).1
    have rightRank := lists.rank _ (mem_sortedEntries.mp rightIn).1
    dsimp only [Ahead, ByRank] at ahead
    rw [leftRank, rightRank] at ahead
    exact ahead
  · refine List.Nodup.of_map rowIdHash ?_
    rw [map_map]
    have ids : (sortedEntries part spills).map (rowIdHash ∘ fun entry => entry.2.rowVals) =
        (sortedEntries part spills).map Prod.fst :=
      map_congr_left fun entry mem => lists.id entry (mem_sortedEntries.mp mem).1
    rw [ids]
    exact lists.nodup_sortedEntries
  · simp only [mem_map, mem_sortedEntries]
    constructor
    · rintro ⟨entry, ⟨mem, positive⟩, rfl⟩
      exact ⟨lists.part entry mem, lists.net entry mem ▸ positive⟩
    · rintro ⟨inPart, positive⟩
      obtain ⟨entry, mem, isVals⟩ := lists.complete vals inPart (Int.ne_of_gt positive)
      exact ⟨entry, ⟨mem, by rw [lists.net entry mem, isVals]; exact positive⟩, isVals⟩

end

theorem Lists.selectTopk_spec (bounded : op.k < 2 ^ 63)
    (lists : op.Lists rows partKey (part.buffer.toPairs ++ spills.toPairs)) :
    (∀ id, id ∉ (sortedEntries part spills).map Prod.fst →
      (selectTopk part op.k spills).lookup id = none) ∧ ∀ entry ∈ sortedEntries part spills,
      countOf (selectTopk part op.k spills) entry.1 = op.topkWeight rows entry.2.rowVals ∧
      ∀ found, (selectTopk part op.k spills).lookup entry.1 = some found →
        found.1 = entry.2.rowVals := by
  have limit : min (op.k : Int) (2 ^ 63 - 1) = (op.k : Int) := by omega
  have fresh : ∀ entry ∈ sortedEntries part spills,
      (∅ : HashMap RowId (List Int64 × Int)).lookup entry.1 = none := fun _ _ => rfl
  have taken := takeEntries_spec (weight rows) lists.nodup_sortedEntries
    (lists.rowVals_sortedEntries ▸ op.ranked_nodup rows partKey)
    (fun entry mem => ⟨lists.net entry (mem_sortedEntries.mp mem).1,
      (mem_sortedEntries.mp mem).2⟩) op.k fresh
  rw [lists.rowVals_sortedEntries] at taken
  unfold selectTopk
  rw [limit]
  refine ⟨taken.1, fun entry mem => ?_⟩
  obtain ⟨counts, isRow⟩ := taken.2 entry mem
  refine ⟨?_, isRow⟩
  rw [topkWeight, lists.part entry (mem_sortedEntries.mp mem).1]
  exact counts

end Selection

/-! ## What a selection shows, and the change of selections -/

/-- A selection of rows of one partition, under their ids. -/
structure Selects (op : TopKOp) (rows : RawRows) (partKey : Bytes)
    (selected : HashMap RowId (List Int64 × Int)) : Prop where
  id : ∀ id found, selected.lookup id = some found → rowIdHash found.1 = id
  part : ∀ id found, selected.lookup id = some found → op.partitionOf found.1 = partKey
  occurs : ∀ id found, selected.lookup id = some found → ∃ row ∈ rows, row.1 = found.1
  nonneg : ∀ id found, selected.lookup id = some found → 0 ≤ found.2

theorem selects_empty (op : TopKOp) (rows : RawRows) (partKey : Bytes) :
    op.Selects rows partKey ∅ := by
  constructor <;> intro id found isFound <;> cases isFound

theorem Selects.append (selects : op.Selects rows partKey selected) (more : RawRows) :
    op.Selects (rows ++ more) partKey selected where
  id := selects.id
  part := selects.part
  occurs := fun id found isFound => by
    obtain ⟨row, mem, same⟩ := selects.occurs id found isFound
    exact ⟨row, by simp [mem], same⟩
  nonneg := selects.nonneg

section Change

variable {part : PartitionState} {spills : HashMap RowId BufferEntry}

theorem Lists.selects (bounded : op.k < 2 ^ 63)
    (lists : op.Lists rows partKey (part.buffer.toPairs ++ spills.toPairs)) :
    op.Selects rows partKey (selectTopk part op.k spills) := by
  obtain ⟨others, taken⟩ := lists.selectTopk_spec bounded
  have facts : ∀ id found, (selectTopk part op.k spills).lookup id = some found →
      rowIdHash found.1 = id ∧ op.partitionOf found.1 = partKey ∧
        (∃ row ∈ rows, row.1 = found.1) ∧ 0 ≤ found.2 := by
    intro id found isFound
    have isEntry : id ∈ (sortedEntries part spills).map Prod.fst := by
      by_contra outside
      rw [others id outside] at isFound
      cases isFound
    obtain ⟨entry, mem, rfl⟩ := mem_map.mp isEntry
    obtain ⟨inside, positive⟩ := mem_sortedEntries.mp mem
    obtain ⟨counts, isRow⟩ := taken entry mem
    rw [lists.net entry inside] at positive
    rw [countOf, isFound] at counts
    rw [isRow found isFound, show found.2 = op.topkWeight rows entry.2.rowVals from counts]
    exact ⟨lists.id entry inside, lists.part entry inside,
      exists_of_weight_ne_zero (Int.ne_of_gt positive), Int.natCast_nonneg _⟩
  exact ⟨fun id found isFound => (facts id found isFound).1,
    fun id found isFound => (facts id found isFound).2.1,
    fun id found isFound => (facts id found isFound).2.2.1,
    fun id found isFound => (facts id found isFound).2.2.2⟩

theorem Lists.shownCount_selectTopk (bounded : op.k < 2 ^ 63)
    (lists : op.Lists rows partKey (part.buffer.toPairs ++ spills.toPairs))
    (inPart : op.partitionOf vals = partKey) :
    shownCount (selectTopk part op.k spills) vals = op.topkWeight rows vals := by
  obtain ⟨others, taken⟩ := lists.selectTopk_spec bounded
  unfold shownCount
  by_cases isEntry : ∃ entry ∈ sortedEntries part spills, entry.2.rowVals = vals
  · obtain ⟨entry, mem, rfl⟩ := isEntry
    obtain ⟨counts, isRow⟩ := taken entry mem
    rw [lists.id entry (mem_sortedEntries.mp mem).1, ← counts, countOf]
    cases found : (selectTopk part op.k spills).lookup entry.1 with
    | none => rfl
    | some shown => simp [isRow shown found]
  · have notPositive : weight rows vals ≤ 0 := by
      by_contra positive
      rw [not_le] at positive
      obtain ⟨entry, mem, isVals⟩ := lists.complete vals inPart (Int.ne_of_gt positive)
      refine isEntry ⟨entry, mem_sortedEntries.mpr ⟨mem, ?_⟩, isVals⟩
      rw [lists.net entry mem, isVals]
      exact positive
    rw [topkWeight_eq_zero notPositive]
    cases found : (selectTopk part op.k spills).lookup (rowIdHash vals) with
    | none => rfl
    | some shown =>
      have inside : rowIdHash vals ∈ (sortedEntries part spills).map Prod.fst := by
        by_contra outside
        rw [others _ outside] at found
        cases found
      obtain ⟨entry, mem, sameId⟩ := mem_map.mp inside
      rw [← sameId] at found
      have isRow := (taken entry mem).2 shown found
      exact if_neg fun same => isEntry ⟨entry, mem, isRow.symm.trans same⟩

private theorem weight_rendered {κ ν : Type} (map : HashMap κ ν) (keep : κ × ν → Bool)
    (render : κ × ν → List Int64 × Int) (vals : List Int64) :
    weight ((map.toPairs.filter keep).map render) vals =
      sumOver (fun key value => if (render (key, value)).1 = vals then
        if keep (key, value) then (render (key, value)).2 else 0 else 0) map := by
  rw [← sum_toPairs (fun entry => if (render entry).1 = vals then
    if keep entry then (render entry).2 else 0 else 0)]
  induction map.toPairs with
  | nil => rfl
  | cons entry entries ih =>
    by_cases kept : keep entry = true <;> simp [kept, ih]

variable {old new : HashMap RowId (List Int64 × Int)}

/-- Only the entry under the id of a row shows the row. -/
theorem Selects.sumOver_row (selects : op.Selects rows partKey new) (vals : List Int64)
    (term : RowId → List Int64 × Int → Int) :
    sumOver (fun id found => if found.1 = vals then term id found else 0) new =
      (new.lookup (rowIdHash vals)).elim 0
        fun found => if found.1 = vals then term (rowIdHash vals) found else 0 := by
  rw [← sumOver_single]
  refine sumOver_congr fun id found isFound => ?_
  by_cases isRow : found.1 = vals
  · have isId := selects.id id found isFound
    rw [isRow] at isId
    simp [isRow, isId]
  · simp [isRow]

theorem weight_emissions (oldSelects : op.Selects rows partKey old)
    (newSelects : op.Selects rows partKey new) (apart : KeysDistinguish rowIdHash rows)
    (vals : List Int64) :
    weight (emissions old new) vals = shownCount new vals - shownCount old vals := by
  -- Rows under one id are the same row.
  have same : ∀ id oldRow newRow, old.lookup id = some oldRow → new.lookup id = some newRow →
      newRow.1 = oldRow.1 := by
    intro id oldRow newRow oldFound newFound
    obtain ⟨row, mem, isOld⟩ := oldSelects.occurs id oldRow oldFound
    obtain ⟨other, otherMember, isNew⟩ := newSelects.occurs id newRow newFound
    rw [← isOld, ← isNew]
    refine apart other otherMember row mem ?_
    rw [isOld, isNew, oldSelects.id id oldRow oldFound, newSelects.id id newRow newFound]
  unfold emissions shownCount
  rw [weight_append, weight_rendered, weight_rendered]
  rw [oldSelects.sumOver_row vals fun id found =>
      if decide (countOf new id < found.2) = true then countOf new id - found.2 else 0,
    newSelects.sumOver_row vals fun id found =>
      if decide (countOf old id < found.2) = true then found.2 - countOf old id else 0]
  simp only [decide_eq_true_eq]
  unfold countOf
  cases oldFound : old.lookup (rowIdHash vals) with
  | none =>
    cases newFound : new.lookup (rowIdHash vals) with
    | none => rfl
    | some newRow =>
      have := newSelects.nonneg _ _ newFound
      simp only [Option.elim_none, Option.elim_some, Option.map_none, Option.getD_none]
      split_ifs <;> omega
  | some oldRow =>
    have := oldSelects.nonneg _ _ oldFound
    cases newFound : new.lookup (rowIdHash vals) with
    | none =>
      simp only [Option.elim_none, Option.elim_some, Option.map_none, Option.getD_none]
      split_ifs <;> omega
    | some newRow =>
      simp only [Option.elim_some, Option.map_some, Option.getD_some,
        same _ _ _ oldFound newFound]
      split_ifs <;> omega

theorem weight_emissions_eq_zero (oldSelects : op.Selects rows partKey old)
    (newSelects : op.Selects rows partKey new) (otherPart : op.partitionOf vals ≠ partKey) :
    weight (emissions old new) vals = 0 := by
  refine weight_eq_zero_of_absent fun row mem isVals => otherPart ?_
  rw [← isVals]
  rcases mem_append.mp mem with retracted | inserted
  · obtain ⟨⟨id, found⟩, isEntry, rfl⟩ := mem_map.mp retracted
    exact oldSelects.part id found (mem_toPairs.mp (mem_of_mem_filter isEntry))
  · obtain ⟨⟨id, found⟩, isEntry, rfl⟩ := mem_map.mp inserted
    exact newSelects.part id found (mem_toPairs.mp (mem_of_mem_filter isEntry))

end Change

end TopKOp

end RockStream
