import RockStream.Window.Op

/-!
Contract: what a run of the window operator shows.

Owns:
- `Arranged`, the arrangement as the accumulated weights of the input;
- `Listing`, the rows that a recomputation sees: every row of positive weight, once;
- `Accepted`, the invariant of a run: every cache is the evaluation of a listing, and the
  emitted rows are what the caches show.

Does not own: the window functions, and what the caches show as a relation.
-/

namespace RockStream

open Lib Loop Lib.Weighted List HashMap ArrowZSet Loop

namespace WindowOp

variable {vals : List Int64} {partKey : Bytes} {op : WindowOp} {rows : List (List Int64 × Int)}
  {state : WindowState}

/-! ## Keys of a row -/

/-- A column of a row of the input width; zero where the input has no such column. -/
def columnOf (nInputCols : Nat) (vals : List Int64) (col : Nat) : Int64 :=
  if col < nInputCols then vals.getD col 0 else 0

theorem inputColumn_of_length {nInputCols : Nat} (length : vals.length = nInputCols) (col : Nat) :
    inputColumn nInputCols vals col = .ok (columnOf nInputCols vals col) := by
  unfold inputColumn columnOf
  split
  · next inside =>
    rw [← length] at inside
    rw [getElem?_eq_getElem inside, getD_eq_getElem _ _ inside]
  · rfl

def keyOf (op : WindowOp) (columns : WindowExpr → List Nat) (vals : List Int64) : List Int64 :=
  (op.windowExprs.head?.elim [] columns).map (columnOf op.nInputCols vals)

def partOf (op : WindowOp) (vals : List Int64) : Bytes :=
  rowKey (op.keyOf WindowExpr.partitionBy vals)

def orderKeyOf (op : WindowOp) (vals : List Int64) : Bytes :=
  encodeOrderCols (op.keyOf WindowExpr.orderBy vals)

theorem keyVals_of_length (length : vals.length = op.nInputCols) (columns : WindowExpr → List Nat) :
    op.keyVals columns vals = .ok (op.keyOf columns vals) := by
  unfold keyVals keyOf
  cases op.windowExprs.head? with
  | none => rfl
  | some expr => exact mapM_of_ok fun col _ => inputColumn_of_length length col

theorem partitionKey_of_length (length : vals.length = op.nInputCols) :
    op.partitionKey vals = .ok (op.partOf vals) := by
  unfold partitionKey partitionKeyVals
  rw [keyVals_of_length length]
  rfl

/-! ## The arrangement -/

theorem find_store (arrangement : HashMap Bytes (HashMap RowId WindowEntry)) (partKey : Bytes)
    (rowId : RowId) (entry : WindowEntry) (otherKey : Bytes) (otherId : RowId) :
    find (store arrangement partKey rowId entry) otherKey otherId =
      if otherKey = partKey ∧ otherId = rowId then some entry
      else find arrangement otherKey otherId := by
  unfold find store
  by_cases samePart : otherKey = partKey
  · subst samePart
    simp [lookup_insert_eq]
  · simp [samePart]

/-- The entry belongs to its place and holds the accumulated weight. -/
structure IsEntry (op : WindowOp) (rows : List (List Int64 × Int)) (partKey : Bytes) (rowId : RowId)
    (entry : WindowEntry) : Prop where
  part : op.partOf entry.inputVals = partKey
  id : rowHash entry.inputVals = rowId
  order : entry.orderKey = op.orderKeyOf entry.inputVals
  total : entry.weight = weight rows entry.inputVals
  occurs : ∃ row ∈ rows, row.1 = entry.inputVals

/-- The arrangement holds the accumulated rows. -/
structure Arranged (op : WindowOp) (rows : List (List Int64 × Int))
    (arrangement : HashMap Bytes (HashMap RowId WindowEntry)) : Prop where
  entries : ∀ partKey rowId entry, find arrangement partKey rowId = some entry →
    op.IsEntry rows partKey rowId entry
  complete : ∀ vals, weight rows vals ≠ 0 →
    ∃ entry, find arrangement (op.partOf vals) (rowHash vals) = some entry ∧ entry.inputVals = vals

section Arrange

variable {arrangement : HashMap Bytes (HashMap RowId WindowEntry)}

theorem arranged_new (op : WindowOp) : op.Arranged [] ∅ := by
  refine ⟨fun partKey rowId entry found => ?_, fun vals present => absurd rfl present⟩
  cases found

variable (arranged : op.Arranged rows arrangement)
include arranged

theorem Arranged.entry (apart : ∀ row ∈ rows, rowHash row.1 = rowHash vals → row.1 = vals) :
    (find arrangement (op.partOf vals) (rowHash vals)).getD ⟨op.orderKeyOf vals, vals, 0⟩ =
      ⟨op.orderKeyOf vals, vals, weight rows vals⟩ := by
  cases found : find arrangement (op.partOf vals) (rowHash vals) with
  | some entry =>
    have own := arranged.entries (op.partOf vals) (rowHash vals) entry found
    obtain ⟨source, mem, same⟩ := own.occurs
    have isVals : entry.inputVals = vals := by
      rw [← same]
      exact apart source mem (by rw [same, own.id])
    subst isVals
    rw [Option.getD_some, WindowEntry.mk.injEq]
    exact ⟨own.order, rfl, own.total⟩
  | none =>
    have absent : weight rows vals = 0 := by
      by_contra present
      obtain ⟨entry, isFound, _⟩ := arranged.complete vals present
      rw [found] at isFound
      cases isFound
    rw [absent]
    rfl

theorem Arranged.append_zero (vals : List Int64) :
    op.Arranged (rows ++ [(vals, 0)]) arrangement := by
  have sameWeight : ∀ other, weight (rows ++ [(vals, 0)]) other = weight rows other := by
    simp
  refine ⟨fun partKey rowId entry found => ?_, fun other present => ?_⟩
  · obtain ⟨part, id, order, total, source, mem, same⟩ :=
      arranged.entries partKey rowId entry found
    exact ⟨part, id, order, by rw [total, sameWeight], source, by simp [mem], same⟩
  · rw [sameWeight] at present
    exact arranged.complete other present

theorem Arranged.store_spec (delta : Int)
    (apart : ∀ row ∈ rows, rowHash row.1 = rowHash vals → row.1 = vals) :
    op.Arranged (rows ++ [(vals, delta)]) (store arrangement (op.partOf vals) (rowHash vals)
      ⟨op.orderKeyOf vals, vals, weight rows vals + delta⟩) := by
  refine ⟨fun partKey rowId found isFound => ?_, fun other present => ?_⟩
  · rw [find_store] at isFound
    split at isFound
    · next own =>
      cases isFound
      exact ⟨own.1.symm, own.2.symm, rfl, by simp, (vals, delta), by simp, rfl⟩
    · next apart =>
      have old := arranged.entries partKey rowId found isFound
      have ne : vals ≠ found.inputVals := by
        rintro rfl
        exact apart ⟨old.part.symm, old.id.symm⟩
      obtain ⟨source, mem, same⟩ := old.occurs
      refine ⟨old.part, old.id, old.order, ?_, source, by simp [mem], same⟩
      rw [old.total]
      simp [ne]
  · rw [find_store]
    by_cases same : vals = other
    · subst same
      rw [if_pos ⟨rfl, rfl⟩]
      exact ⟨_, rfl, rfl⟩
    · have occurs : weight rows other ≠ 0 := by simpa [same] using present
      obtain ⟨source, mem, rfl⟩ := exists_of_weight_ne_zero occurs
      have apart : ¬ (op.partOf source.1 = op.partOf vals ∧ rowHash source.1 = rowHash vals) :=
        fun collide => same (apart source mem collide.2).symm
      rw [if_neg apart]
      exact arranged.complete source.1 occurs

theorem Arranged.applyRow_spec (row : List Cell × Int)
    (isVals : extractVals row.1 op.nInputCols = vals) (length : vals.length = op.nInputCols)
    (apart : ∀ row ∈ rows, rowHash row.1 = rowHash vals → row.1 = vals) :
    Meets (fun _ => True) (op.applyRow arrangement row)
      (op.Arranged (rows ++ [(vals, row.2)])) := by
  unfold applyRow
  split
  · next hollow =>
    rw [hollow]
    exact Meets.ok (arranged.append_zero vals)
  · rw [isVals]
    dsimp only
    rw [partitionKey_of_length length, orderKeyVals, keyVals_of_length length]
    show Meets _ (addI64 ((find arrangement (op.partOf vals) (rowHash vals)).getD
      ⟨op.orderKeyOf vals, vals, 0⟩).weight row.2 >>= _) _
    rw [arranged.entry apart]
    refine Meets.bind ((yields_addI64 (weight rows vals) row.2).permit fun _ _ => trivial) ?_
    rintro total rfl
    show op.Arranged _ (store arrangement (op.partOf vals) (rowHash vals)
      { (find arrangement (op.partOf vals) (rowHash vals)).getD ⟨op.orderKeyOf vals, vals, 0⟩ with
        weight := weight rows vals + row.2 })
    rw [arranged.entry apart]
    exact arranged.store_spec row.2 apart

end Arrange

/-! ## What a recomputation sees -/

/-- Every row of the partition with positive weight, once, in the order of the keys. -/
structure Listing (op : WindowOp) (rows : List (List Int64 × Int)) (partKey : Bytes)
    (sorted : List (Bytes × List Int64)) : Prop where
  keyed : ∀ row ∈ sorted, row.1 = op.orderKeyOf row.2
  ordered : sorted.Pairwise fun left right => left.1 ≤ right.1
  nodup : (sorted.map Prod.snd).Nodup
  present : ∀ vals, vals ∈ sorted.map Prod.snd ↔ op.partOf vals = partKey ∧ 0 < weight rows vals

theorem Listing.congr {rows others : List (List Int64 × Int)} {sorted : List (Bytes × List Int64)}
    (listing : op.Listing rows partKey sorted)
    (agree : ∀ vals, op.partOf vals = partKey → weight others vals = weight rows vals) :
    op.Listing others partKey sorted := by
  refine ⟨listing.keyed, listing.ordered, listing.nodup, fun vals => ?_⟩
  rw [listing.present]
  refine and_congr_right fun inPart => ?_
  rw [agree vals inPart]

section Listings

theorem Arranged.nodup_values (arranged : op.Arranged rows state.arrangement) (partKey : Bytes) :
    ((values ((state.arrangement.lookup partKey).getD ∅)).map WindowEntry.inputVals).Nodup := by
  refine List.Nodup.of_map rowHash ?_
  have hashes : ((values ((state.arrangement.lookup partKey).getD ∅)).map
      WindowEntry.inputVals).map rowHash =
        (toPairs ((state.arrangement.lookup partKey).getD ∅)).map Prod.fst := by
    unfold values toPairs
    rw [map_map, map_map, map_map]
    refine map_congr_left fun stored mem => ?_
    exact (arranged.entries partKey stored.1 stored.2 (AList.mem_lookup_iff.mpr mem)).id
  rw [hashes]
  exact nodup_keys _

theorem mem_presentRows {order : IterationOrder} {row : Bytes × List Int64} :
    row ∈ presentRows state order partKey ↔ ∃ rowId entry,
      find state.arrangement partKey rowId = some entry ∧ 0 < entry.weight ∧
        (entry.orderKey, entry.inputVals) = row := by
  have mem : ∀ entry : WindowEntry,
      entry ∈ order.rows (values ((state.arrangement.lookup partKey).getD ∅)) ↔
        ∃ rowId, find state.arrangement partKey rowId = some entry :=
    fun entry => (order.rows_perm _).mem_iff.trans mem_values
  unfold presentRows
  simp only [mem_map, mem_filter, mem, decide_eq_true_eq]
  constructor
  · rintro ⟨entry, ⟨⟨rowId, found⟩, positive⟩, isRow⟩
    exact ⟨rowId, entry, found, positive, isRow⟩
  · rintro ⟨rowId, entry, found, positive, isRow⟩
    exact ⟨entry, ⟨⟨rowId, found⟩, positive⟩, isRow⟩

theorem Arranged.nodup_presentRows (arranged : op.Arranged rows state.arrangement)
    (order : IterationOrder) (partKey : Bytes) :
    ((presentRows state order partKey).map Prod.snd).Nodup := by
  unfold presentRows
  rw [map_map]
  have all := ((order.rows_perm _).map WindowEntry.inputVals).nodup_iff.mpr
    (arranged.nodup_values partKey)
  exact all.sublist (filter_sublist.map _)

/-- A recomputation sees the listing of its partition, whatever the iteration order. -/
theorem Arranged.listing (arranged : op.Arranged rows state.arrangement) (order : IterationOrder)
    (partKey : Bytes) : op.Listing rows partKey (rowsInPart state order partKey) := by
  have permutation : (rowsInPart state order partKey).Perm (presentRows state order partKey) :=
    perm_insertionSort _ _
  refine ⟨fun row mem => ?_, ?_, ?_, fun vals => ?_⟩
  · obtain ⟨rowId, entry, found, _, rfl⟩ := mem_presentRows.mp (permutation.mem_iff.mp mem)
    exact (arranged.entries partKey rowId entry found).order
  · exact pairwise_insertionSort _ _
  · exact (permutation.map Prod.snd).nodup_iff.mpr (arranged.nodup_presentRows order partKey)
  · rw [(permutation.map Prod.snd).mem_iff, mem_map]
    constructor
    · rintro ⟨row, mem, rfl⟩
      obtain ⟨rowId, entry, found, positive, rfl⟩ := mem_presentRows.mp mem
      have own := arranged.entries partKey rowId entry found
      exact ⟨own.part, own.total ▸ positive⟩
    · rintro ⟨inPart, positive⟩
      obtain ⟨entry, found, isVals⟩ := arranged.complete vals positive.ne'
      rw [inPart] at found
      have own := arranged.entries partKey (rowHash vals) entry found
      refine ⟨(entry.orderKey, entry.inputVals), mem_presentRows.mpr ⟨_, entry, found, ?_, rfl⟩,
        isVals⟩
      rw [own.total, isVals]
      exact positive

end Listings

/-! ## Evaluated partitions -/

def shownAs (op : WindowOp) (out : WindowRow) : Row := (outputCells op.schema out).map Cell.get

def rendered (op : WindowOp) (rows : List (WindowRow × Int)) : List (Row × Int) :=
  denote (rows.map fun row => (outputCells op.schema row.1, row.2))

theorem rendered_append (op : WindowOp) (left right : List (WindowRow × Int)) :
    op.rendered (left ++ right) = op.rendered left ++ op.rendered right := by
  unfold rendered
  rw [map_append, denote_append]

theorem weight_rendered_map (op : WindowOp) (delta : Int) (outs : List WindowRow) (row : Row) :
    weight (op.rendered (outs.map fun out => (out, delta))) row =
      delta * ((outs.map op.shownAs).count row : Nat) := by
  unfold rendered denote
  rw [map_map, map_map]
  show weight (outs.map fun out => (op.shownAs out, delta)) row = _
  convert weight_map_const op.shownAs delta outs row

section Evaluation

variable {sorted : List (Bytes × List Int64)} {outs : List WindowRow}

variable (evals : op.evalPartition sorted = .ok outs)
include evals

theorem evalPartition_rows :
    List.Forall₂ (fun row out => ∃ results, out = op.outputRow row.2 results) sorted outs := by
  obtain ⟨columns, _, mapped⟩ := bind_eq_ok.mp evals
  have rel := mapM_eq_ok.mp mapped
  have values : sorted.zipIdx.map Prod.fst = sorted := zipIdx_map_fst 0 sorted
  rw [← values, forall₂_map_left_iff]
  refine rel.imp fun row out made => ?_
  obtain ⟨results, _, built⟩ := bind_eq_ok.mp made
  cases built
  exact ⟨results, rfl⟩

variable (wide : ∀ row ∈ sorted, row.2.length = op.nInputCols)
include wide

theorem evalPartition_inputs :
    (outs.map fun out => out.1.take op.nInputCols) = sorted.map Prod.snd := by
  refine map_eq_map_of_forall₂ (evalPartition_rows evals) fun row mem out made => ?_
  obtain ⟨results, rfl⟩ := made
  exact take_left' (wide row mem)

theorem evalPartition_nodup (nodup : (sorted.map Prod.snd).Nodup) :
    outs.Nodup := by
  rw [← evalPartition_inputs evals wide] at nodup
  exact nodup.of_map

end Evaluation

/-! ## The output cache -/

theorem values_cacheOf {outs : List WindowRow} (nodup : (outs.map outputRowHash).Nodup) :
    (values (cacheOf outs)).Perm outs := by
  have general := values_foldl_insert outputRowHash id nodup
    (∅ : OutputCache) fun out _ => by simp
  rw [map_id] at general
  exact general.trans (.of_eq (append_nil outs))

/-- What the cache of a partition shows: the evaluation of its listing; without a cache the
partition has no present row. -/
def CachedAt (op : WindowOp) (rows : List (List Int64 × Int)) (partKey : Bytes) :
    Option OutputCache → Prop
  | some cache => ∃ sorted outs, op.Listing rows partKey sorted ∧
      op.evalPartition sorted = .ok outs ∧ (HashMap.values cache).Perm outs
  | none => ∀ vals, op.partOf vals = partKey → weight rows vals ≤ 0

theorem CachedAt.congr {rows others : List (List Int64 × Int)} {cache : Option OutputCache}
    (cached : op.CachedAt rows partKey cache)
    (agree : ∀ vals, op.partOf vals = partKey → weight others vals = weight rows vals) :
    op.CachedAt others partKey cache := by
  cases cache with
  | some cache =>
    obtain ⟨sorted, outs, listing, evals, values⟩ := cached
    exact ⟨sorted, outs, listing.congr agree, evals, values⟩
  | none =>
    intro vals inPart
    rw [agree vals inPart]
    exact cached vals inPart

def shownCount (op : WindowOp) (prevOutput : HashMap Bytes OutputCache) (row : Row) : Int :=
  HashMap.sumOver (fun _ cache => (((HashMap.values cache).map op.shownAs).count row : Nat))
    prevOutput

theorem recordDeletions_frame (state : WindowState) (partKey : Bytes) (hashes : List RowId) :
    (recordDeletions state partKey hashes).arrangement = state.arrangement ∧
      (recordDeletions state partKey hashes).prevOutput = state.prevOutput := by
  induction hashes generalizing state with
  | nil => exact ⟨rfl, rfl⟩
  | cons hash hashes ih => exact ih _

/-! ## The loop over the affected partitions -/

/-- The loop after some partitions: their caches are recomputed, the others are as they were, and
the rows handed out are the change of what is shown. -/
structure Refreshed (op : WindowOp) (rows : List (List Int64 × Int)) (start : WindowState)
    (done : List Bytes) (current : List (WindowRow × Int) × WindowState) : Prop where
  touched : ∀ partKey ∈ done, op.CachedAt rows partKey (current.2.prevOutput.lookup partKey)
  untouched : ∀ partKey, partKey ∉ done →
    current.2.prevOutput.lookup partKey = start.prevOutput.lookup partKey
  change : ∀ row, weight (op.rendered current.1) row =
    op.shownCount current.2.prevOutput row - op.shownCount start.prevOutput row

section Refresh

variable {start : WindowState} {done : List Bytes}
  {current : List (WindowRow × Int) × WindowState}

/-- One partition is given a new cache, or none. -/
theorem Refreshed.replace (refreshed : op.Refreshed rows start done current)
    {next : List (WindowRow × Int) × WindowState} (cache : Option OutputCache)
    (cached : op.CachedAt rows partKey cache)
    (lookups : ∀ other, next.2.prevOutput.lookup other = if other = partKey then cache
      else current.2.prevOutput.lookup other)
    (change : ∀ row, weight (op.rendered next.1) row = weight (op.rendered current.1) row +
      (op.shownCount next.2.prevOutput row - op.shownCount current.2.prevOutput row)) :
    op.Refreshed rows start (done ++ [partKey]) next := by
  refine ⟨fun other mem => ?_, fun other absent => ?_, fun row => ?_⟩
  · rw [lookups]
    split
    · next same =>
      rw [same]
      exact cached
    · next ne =>
      rcases mem_append.mp mem with earlier | last
      · exact refreshed.touched other earlier
      · exact absurd (mem_singleton.mp last) ne
  · rw [mem_append, mem_singleton, not_or] at absent
    rw [lookups, if_neg absent.2]
    exact refreshed.untouched other absent.1
  · rw [change, refreshed.change]
    ring

theorem weight_retracted (op : WindowOp) (prevOutput : HashMap Bytes OutputCache) (partKey : Bytes)
    (row : Row) : weight (op.rendered ((values ((prevOutput.lookup partKey).getD ∅)).map
        fun out => (out, (-1 : Int)))) row = -(prevOutput.lookup partKey).elim (0 : Int)
        fun cache => (((values cache).map op.shownAs).count row : Nat) := by
  rw [weight_rendered_map, neg_one_mul]
  cases prevOutput.lookup partKey with
  | none => rfl
  | some cache => rfl

/-- One affected partition, as long as the rows handed out have different hashes. -/
theorem refreshPartition_spec (arranged : op.Arranged rows current.2.arrangement)
    (refreshed : KeysDistinguish outputRowHash current.1 → op.Refreshed rows start done current)
    (wide : HaveWidth op.nInputCols rows) (order : IterationOrder) (partKey : Bytes) :
    Meets (fun _ => True) (op.refreshPartition order current partKey) fun next =>
      next.2.arrangement = current.2.arrangement ∧ (KeysDistinguish outputRowHash next.1 →
        op.Refreshed rows start (done ++ [partKey]) next) := by
  have listing := arranged.listing order partKey
  have listedWide : ∀ row ∈ rowsInPart current.2 order partKey, row.2.length = op.nInputCols := by
    intro row mem
    obtain ⟨_, positive⟩ := (listing.present row.2).mp (mem_map_of_mem mem)
    obtain ⟨source, isSource, same⟩ := exists_of_weight_ne_zero positive.ne'
    rw [← same]
    exact wide source isSource
  have frame := recordDeletions_frame current.2 partKey
    ((current.2.prevOutput.lookup partKey).getD ∅).keys
  unfold refreshPartition
  dsimp only
  split
  · next noRows =>
    refine Meets.ok ⟨frame.1, fun apart => ?_⟩
    have before := refreshed (apart.of_subset fun row mem => ⟨row, by simp [mem], rfl⟩)
    refine before.replace none (fun vals inPart => ?_) (fun other => ?_) fun row => ?_
    · by_contra positive
      have listed := (listing.present vals).mpr ⟨inPart, not_le.mp positive⟩
      rw [isEmpty_iff.mp noRows] at listed
      cases listed
    · rw [frame.2, lookup_erase_eq]
    · rw [rendered_append, weight_append, weight_retracted, frame.2, shownCount, sumOver_erase_eq,
        shownCount]
      ring
  · refine Meets.bind (Exec.meets_within_any (Meets.intro fun shown evals => evals) _) ?_
    intro shown evals
    refine Meets.pure ⟨frame.1, fun apart => ?_⟩
    have before := refreshed (apart.of_subset fun row mem => ⟨row, by simp [mem], rfl⟩)
    have hashes : (shown.map outputRowHash).Nodup := by
      refine (evalPartition_nodup evals listedWide listing.nodup).map_on ?_
      intro first isFirst second isSecond same
      exact apart (first, 1) (by simp [isFirst]) (second, 1) (by simp [isSecond]) same
    have values := values_cacheOf hashes
    refine before.replace (some (cacheOf shown)) ⟨_, shown, listing, evals, values⟩
      (fun other => ?_) fun row => ?_
    · rw [frame.2, lookup_insert_eq]
    · rw [rendered_append, rendered_append, weight_append, weight_append, weight_retracted,
        weight_rendered_map, frame.2, shownCount, sumOver_insert_eq,
        (values.map op.shownAs).count_eq, shownCount]
      ring

end Refresh

/-! ## Epochs -/

/-- The state after the rows of a run, and what was emitted. -/
structure Accepted (op : WindowOp) (rows : List (List Int64 × Int)) (emitted : List (Row × Int))
    (state : WindowState) : Prop where
  arranged : op.Arranged rows state.arrangement
  cached : ∀ partKey, op.CachedAt rows partKey (state.prevOutput.lookup partKey)
  shown : ∀ row, weight emitted row = op.shownCount state.prevOutput row

theorem accepted_new (op : WindowOp) : op.Accepted [] [] .new :=
  ⟨op.arranged_new, fun _ _ _ => le_refl 0, fun _ => rfl⟩

theorem extractVals_eq {nCols : Nat} {cells : List Cell} (length : cells.length = nCols) :
    extractVals cells nCols = extractRowVals cells := by
  unfold extractVals
  rw [take_of_length_le length.le]

section Epochs

variable {base : List (List Int64 × Int)} {delta : ArrowZSet}

theorem Arranged.applyRows_spec (arranged : op.Arranged base state.arrangement)
    (input : Int64Epoch op.nInputCols delta)
    (apart : KeysDistinguish rowHash (base ++ int64Rows delta.valued)) :
    Meets (fun _ => True) (delta.rows.foldlM op.applyRow state.arrangement)
      (op.Arranged (base ++ int64Rows delta.valued)) := by
  rw [input.int64Rows_eq] at apart ⊢
  refine Meets.foldlM (fun done => op.Arranged
    (base ++ done.map fun row : List Cell × Int => (extractRowVals row.1, row.2))) ?_ ?_
  · rw [map_nil, append_nil]
    exact arranged
  · intro done row rest current split inv
    have length : row.1.length = op.nInputCols := input.length_eq (by simp [split])
    rw [map_append, ← append_assoc]
    refine inv.applyRow_spec row (extractVals_eq length) ?_ ?_
    · rw [extractRowVals, length_map, length]
    · intro other inside same
      refine apart other ?_ (extractRowVals row.1, row.2) ?_ same
      · rw [split, map_append, ← append_assoc]
        exact mem_append_left _ inside
      · simp [split]

def affectedKeys (op : WindowOp) (delta : ArrowZSet) : List Bytes :=
  (delta.rows.map fun row => op.partOf (extractRowVals row.1)).dedup

theorem partitionKeys_of_shape (input : Int64Epoch op.nInputCols delta) :
    delta.rows.mapM (fun row => op.partitionKey (extractVals row.1 op.nInputCols)) =
      .ok (delta.rows.map fun row => op.partOf (extractRowVals row.1)) := by
  refine mapM_of_ok fun row mem => ?_
  have length := input.length_eq mem
  rw [extractVals_eq length, partitionKey_of_length]
  rw [extractRowVals, length_map, length]

theorem weight_unaffected (input : Int64Epoch op.nInputCols delta)
    (absent : partKey ∉ op.affectedKeys delta) (inPart : op.partOf vals = partKey) :
    weight (base ++ int64Rows delta.valued) vals = weight base vals := by
  have elsewhere : ∀ row ∈ int64Rows delta.valued, row.1 ≠ vals := by
    intro row mem same
    rw [input.int64Rows_eq] at mem
    obtain ⟨source, isSource, rfl⟩ := mem_map.mp mem
    refine absent (mem_dedup.mpr (mem_map.mpr ⟨source, isSource, ?_⟩))
    rw [← inPart, ← same]
  rw [weight_append, weight_eq_zero_of_absent elsewhere, add_zero]

/-- An epoch adds its rows to the arrangement, recomputes the partitions of those rows, and hands
out the change of what is shown. -/
theorem Accepted.computeEpoch_spec {emitted : List (Row × Int)}
    (accepted : op.Accepted base emitted state) (input : Int64Epoch op.nInputCols delta)
    (order : IterationOrder) (apart : KeysDistinguish rowHash (base ++ int64Rows delta.valued))
    (wide : HaveWidth op.nInputCols (base ++ int64Rows delta.valued)) :
    Meets (fun _ => True) (op.computeEpoch state (delta, order)) fun result =>
      KeysDistinguish outputRowHash result.1 →
        op.Accepted (base ++ int64Rows delta.valued)
          (emitted ++ op.rendered result.1) result.2 := by
  unfold computeEpoch
  rw [partitionKeys_of_shape input]
  show Meets _ (Exec.within state (delta.rows.foldlM op.applyRow state.arrangement) >>= _) _
  refine Meets.bind (Exec.meets_within_any
    (accepted.arranged.applyRows_spec input apart) state) fun arrangement arranged => ?_
  refine (Meets.foldlM (fun done current => current.2.arrangement = arrangement ∧
    (KeysDistinguish outputRowHash current.1 → op.Refreshed (base ++ int64Rows delta.valued)
      { state with arrangement := arrangement } done current)) ?_ ?_).weaken ?_
  · exact ⟨rfl, fun _ => ⟨nofun, fun _ _ => rfl, fun row => (sub_self _).symm⟩⟩
  · rintro done partKey rest current _ ⟨sameArrangement, refreshed⟩
    have step := refreshPartition_spec (sameArrangement.symm ▸ arranged) refreshed
      wide order partKey
    exact step.weaken fun next spec => ⟨spec.1.trans sameArrangement, spec.2⟩
  · rintro result ⟨sameArrangement, refreshed⟩ distinct
    obtain ⟨touched, untouched, change⟩ := refreshed distinct
    refine ⟨sameArrangement.symm ▸ arranged, fun partKey => ?_, fun row => ?_⟩
    · by_cases affected : partKey ∈ order.partitions (op.affectedKeys delta)
      · exact touched partKey affected
      · rw [untouched partKey affected]
        refine (accepted.cached partKey).congr fun vals inPart => weight_unaffected input ?_ inPart
        exact fun inside => affected ((order.partitions_perm _).mem_iff.mpr inside)
    · rw [weight_append, change, accepted.shown]
      ring

end Epochs

/-! ## Runs -/

section Runs

variable {epochs : List (ArrowZSet × IterationOrder)}

theorem weight_buildOutput {rows : List (WindowRow × Int)}
    (apart : KeysDistinguish outputRowHash rows) {output : ArrowZSet}
    (built : op.buildOutput rows = .ok output) (row : Row) :
    weight output.valued row = weight (op.rendered rows) row := by
  have hollow : ∀ batch, empty op.schema = .ok batch → weight batch.valued row = 0 := by
    intro batch isEmpty
    rw [valued_empty isEmpty]
    rfl
  unfold buildOutput at built
  split at built
  · next noRows =>
    rw [hollow output built, isEmpty_iff.mp noRows]
    rfl
  · obtain ⟨kept, consolidated, ended⟩ := bind_eq_ok.mp built
    obtain ⟨sameWeights, _⟩ := (consolidate_spec apart).post consolidated
    have weights : weight (op.rendered kept) row = weight (op.rendered rows) row := by
      unfold rendered
      rw [weight_denote, weight_denote, integrate_map, integrate_map]
      exact integrate_eq_of_weight_eq _ sameWeights
    split at ended
    · next noneKept =>
      rw [hollow output ended, ← weights, isEmpty_iff.mp noneKept]
      rfl
    · obtain ⟨_, _, made⟩ := bind_eq_ok.mp ended
      rw [← weights, valued, (tryNew_eq_ok made).2]
      rfl

theorem computed_of_run {state final : WindowState} {outputs : List ArrowZSet}
    (ran : run op.processEpoch state epochs = .ok (outputs, final)) :
    ∃ computed, run op.computeEpoch state epochs = .ok (computed, final) ∧
      List.Forall₂ (fun rows output => op.buildOutput rows = .ok output) computed outputs := by
  induction epochs generalizing state outputs with
  | nil =>
    cases ran
    exact ⟨[], rfl, .nil⟩
  | cons epoch epochs ih =>
    obtain ⟨⟨output, middle⟩, stepped, rest⟩ := bind_eq_ok.mp ran
    obtain ⟨⟨others, last⟩, ranRest, ended⟩ := bind_eq_ok.mp rest
    cases ended
    obtain ⟨⟨rows, next⟩, computedRows, built⟩ := bind_eq_ok.mp stepped
    obtain ⟨batch, isBatch, made⟩ := bind_eq_ok.mp built
    cases made
    obtain ⟨computed, ranComputed, rel⟩ := ih ranRest
    refine ⟨rows :: computed, ?_, .cons (Exec.within_eq_ok.mp isBatch) rel⟩
    rw [run, bind_of_ok computedRows, bind_of_ok ranComputed]
    rfl

/-- No two input rows and no two output rows of the run have the same hash. -/
structure CollisionFree (op : WindowOp) (epochs : List (ArrowZSet × IterationOrder)) : Prop where
  inputs : KeysDistinguish rowHash (inputRows epochs)
  outputs : ∀ computed final, Loop.run op.computeEpoch .new epochs = .ok (computed, final) →
    KeysDistinguish outputRowHash computed.flatten

variable (inputs : ∀ epoch ∈ epochs, Int64Epoch op.nInputCols epoch.1)
include inputs

theorem accepted_run (apart : KeysDistinguish rowHash (inputRows epochs)) :
    Meets (fun _ => True) (run op.computeEpoch .new epochs) fun result =>
      KeysDistinguish outputRowHash result.1.flatten →
        op.Accepted (inputRows epochs) (result.1.flatMap op.rendered) result.2 := by
  refine Meets.run (fun done computed state => KeysDistinguish outputRowHash computed.flatten →
    op.Accepted (inputRows done) (computed.flatMap op.rendered) state) (fun _ => op.accepted_new) ?_
  intro done epoch rest computed state split held
  rw [split, append_cons] at apart
  have initialPart := apart.inputRows_prefix
  have wide : HaveWidth op.nInputCols (inputRows (done ++ [epoch])) := by
    refine haveWidth_inputRows fun other inside => inputs other ?_
    rw [split, append_cons]
    exact mem_append_left _ inside
  refine Meets.intro fun result stepped distinct => ?_
  rw [flatten_append, flatten_singleton] at distinct
  have earlier := held (distinct.of_subset fun row mem => ⟨row, mem_append_left _ mem, rfl⟩)
  rw [inputRows_append_single] at initialPart wide ⊢
  rw [flatMap_append, flatMap_singleton]
  refine (earlier.computeEpoch_spec (inputs epoch (by simp [split])) epoch.2 initialPart wide).post
    stepped (distinct.of_subset fun row mem => ⟨row, mem_append_right _ mem, rfl⟩)

theorem accepted_final
    (collisionFree : op.CollisionFree epochs) {outputs : List ArrowZSet} {final : WindowState}
    (ran : run op.processEpoch .new epochs = .ok (outputs, final)) :
    op.Accepted (inputRows epochs) (outputs.flatMap valued) final := by
  obtain ⟨computed, ranComputed, rel⟩ := computed_of_run ran
  have apart := collisionFree.outputs computed final ranComputed
  have accepted := (accepted_run inputs collisionFree.inputs).post ranComputed apart
  refine ⟨accepted.arranged, accepted.cached, fun row => ?_⟩
  rw [← accepted.shown]
  clear accepted ranComputed ran
  induction rel with
  | nil => rfl
  | @cons rows output computed outputs built _ ih =>
    rw [flatMap_cons, flatMap_cons, weight_append, weight_append,
      weight_buildOutput (apart.of_subset fun other mem => ⟨other, by simp [mem], rfl⟩)
        built,
      ih (apart.of_subset fun other mem => ⟨other, by
        exact mem_append_right _ mem, rfl⟩)]

end Runs

end WindowOp

end RockStream
