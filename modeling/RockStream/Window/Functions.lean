import RockStream.Window.Law
import RockStream.Sql.Window
import RockStream.Lib.Ranking

/-!
Contract: what the ranking and the offset window functions compute.

Owns:
- `rankOf` and `denseRankOf`, the ranks in a sorted list of values, and the two loops
  that compute them;
- the ranks of a partition sorted by its whole ORDER BY key: they are the ranks of the
  *first* ORDER BY column, and follow the whole key exactly when that column decides it;
- LAG and LEAD as lowered from SQL: they read the first ORDER BY column, whatever the
  argument is.

Does not own: the sliding aggregates, and which rows a partition holds.
-/

namespace RockStream

open Lib Loop Sql List WindowOp WindowExpr

variable {measure : Int64 → Nat} {col i : Nat} {others : List Nat} {column : List (Option Int64)}

variable {values : List Int64} {code : Nat → Option Int64} {expr : WindowExpr} {nInputCols : Nat}
  {rows : List (List Int64)} {schema : DfSchema} {call : WindowFunction DfExpr} {v : Column}
  {n : Int}

/-! ## Ranks in a sorted list -/

section Ranks

def smaller (values : List Int64) (value : Int64) : List Int64 :=
  values.filter fun other => other < value

/-- One plus the number of smaller values. -/
def rankOf (values : List Int64) (value : Int64) : Nat := 1 + (smaller values value).length

/-- One plus the number of different smaller values. -/
def denseRankOf (values : List Int64) (value : Int64) : Nat :=
  1 + (smaller values value).toFinset.card

variable {before rest : List Int64} {previous value : Int64}

/-- Values that are not below do not count. -/
theorem smaller_append (above : ∀ other ∈ rest, value ≤ other) :
    smaller (before ++ rest) value = smaller before value := by
  have none : rest.filter (fun other => decide (other < value)) = [] := by
    refine filter_eq_nil_iff.mpr fun other mem => ?_
    simpa using above other mem
  unfold smaller
  rw [filter_append, none, append_nil]

theorem smaller_sorted (sorted : (value :: rest).Pairwise (· ≤ ·)) :
    smaller (before ++ value :: rest) value = smaller before value := by
  refine smaller_append fun other mem => ?_
  rcases mem_cons.mp mem with same | later
  · exact same.ge
  · exact (pairwise_cons.mp sorted).1 other later

theorem smaller_eq_self (bounded : ∀ other ∈ before, other ≤ previous) (step : previous < value) :
    smaller before value = before := by
  refine filter_eq_self.mpr fun other mem => ?_
  exact decide_eq_true (lt_of_le_of_lt (bounded other mem) step)

/-- The last of the earlier values bounds them, and the next value is not below it. -/
structure Reached (before rest : List Int64) (previous : Int64) : Prop where
  mem : previous ∈ before
  bounded : ∀ other ∈ before, other ≤ previous
  above : ∀ other ∈ rest, previous ≤ other
  sorted : rest.Pairwise (· ≤ ·)

section

variable (reached : Reached before (value :: rest) previous)
include reached

theorem Reached.next : Reached (before ++ [value]) rest value := by
  obtain ⟨below, sorted⟩ := pairwise_cons.mp reached.sorted
  refine ⟨by simp, fun other mem => ?_, below, sorted⟩
  rcases mem_append.mp mem with earlier | last
  · exact (reached.bounded other earlier).trans (reached.above value (by simp))
  · rw [mem_singleton.mp last]

theorem Reached.smaller_eq : smaller (before ++ value :: rest) value = smaller before value :=
  smaller_sorted reached.sorted

/-- The rank that the loop gives to the next value. -/
theorem Reached.rank_eq : (if previous ≠ value then before.length + 1 else rankOf before previous) =
      rankOf (before ++ value :: rest) value := by
  unfold rankOf
  rw [reached.smaller_eq]
  split
  · next ne =>
    have step := lt_of_le_of_ne (reached.above value (by simp)) ne
    rw [smaller_eq_self reached.bounded step, Nat.add_comm]
  · next same => rw [not_not.mp same]

theorem Reached.dense_eq :
    (if previous ≠ value then denseRankOf before previous + 1 else denseRankOf before previous) =
      denseRankOf (before ++ value :: rest) value := by
  unfold denseRankOf
  rw [reached.smaller_eq]
  split
  · next ne =>
    have step := lt_of_le_of_ne (reached.above value (by simp)) ne
    have values : before.toFinset = insert previous (smaller before previous).toFinset := by
      ext other
      rw [mem_toFinset, Finset.mem_insert, mem_toFinset, smaller, mem_filter,
        decide_eq_true_eq]
      constructor
      · intro mem
        rcases eq_or_lt_of_le (reached.bounded other mem) with same | less
        · exact .inl same
        · exact .inr ⟨mem, less⟩
      · rintro (rfl | ⟨mem, _⟩)
        · exact reached.mem
        · exact mem
    have fresh : previous ∉ (smaller before previous).toFinset := by
      simp [smaller]
    rw [smaller_eq_self reached.bounded step, values, Finset.card_insert_of_notMem fresh,
      Nat.add_assoc]
  · next same => rw [not_not.mp same]

end

theorem Reached.start (sorted : (value :: rest).Pairwise (· ≤ ·)) : Reached [value] rest value := by
  obtain ⟨above, sortedRest⟩ := pairwise_cons.mp sorted
  exact ⟨by simp, by simp, above, sortedRest⟩

theorem smaller_start (sorted : (value :: rest).Pairwise (· ≤ ·)) :
    smaller (value :: rest) value = [] :=
  show smaller ([] ++ value :: rest) value = smaller [] value from smaller_sorted sorted

theorem smaller_next (reached : Reached before (value :: rest) previous) :
    smaller (before ++ [value]) value = smaller (before ++ value :: rest) value := by
  rw [reached.smaller_eq, smaller_append]
  simp

theorem rankLoop_from (reached : Reached before rest previous) :
    rankLoop (some previous) before.length (rankOf before previous) rest =
      rest.map (rankOf (before ++ rest)) := by
  induction rest generalizing before previous with
  | nil => rfl
  | cons value rest ih =>
    have step := reached.rank_eq
    have later := ih reached.next
    rw [length_append, length_singleton, rankOf, smaller_next reached, ← rankOf,
      append_assoc, singleton_append] at later
    simp only [rankLoop, Option.isSome_some, true_and, ne_eq, Option.some.injEq] at step ⊢
    rw [step, later, map_cons]

theorem rankLoop_sorted (sorted : values.Pairwise (· ≤ ·)) :
    rankLoop none 0 1 values = values.map (rankOf values) := by
  cases values with
  | nil => rfl
  | cons value rest =>
    have later := rankLoop_from (Reached.start sorted)
    have alone : rankOf [value] value = 1 := by simp [rankOf, smaller]
    have first : rankOf (value :: rest) value = 1 := by simp [rankOf, smaller_start sorted]
    rw [alone] at later
    rw [map_cons, first]
    exact congrArg (1 :: ·) later

theorem denseLoop_from (reached : Reached before rest previous) :
    denseLoop (some previous) (denseRankOf before previous) rest =
      rest.map (denseRankOf (before ++ rest)) := by
  induction rest generalizing before previous with
  | nil => rfl
  | cons value rest ih =>
    have step := reached.dense_eq
    have later := ih reached.next
    rw [denseRankOf, smaller_next reached, ← denseRankOf, append_assoc,
      singleton_append] at later
    simp only [denseLoop, Option.isSome_some, true_and, ne_eq, Option.some.injEq] at step ⊢
    rw [step, later, map_cons]

theorem denseLoop_sorted (sorted : values.Pairwise (· ≤ ·)) :
    denseLoop none 1 values = values.map (denseRankOf values) := by
  cases values with
  | nil => rfl
  | cons value rest =>
    have later := denseLoop_from (Reached.start sorted)
    have alone : denseRankOf [value] value = 1 := by simp [denseRankOf, smaller]
    have first : denseRankOf (value :: rest) value = 1 := by
      simp [denseRankOf, smaller_start sorted]
    rw [alone] at later
    rw [map_cons, first]
    exact congrArg (1 :: ·) later

section

variable {low high : Int64} (less : low < high)
include less

theorem smaller_sublist : smaller values low <+ smaller values high := by
  refine monotone_filter_right values fun other under => ?_
  exact decide_eq_true ((of_decide_eq_true under).trans less)

theorem rankOf_lt (mem : low ∈ values) : rankOf values low < rankOf values high := by
  have own : low ∈ smaller values high := mem_filter.mpr ⟨mem, decide_eq_true less⟩
  have shorter : (smaller values low).length < (smaller values high).length := by
    refine (smaller_sublist less).length_le.lt_of_ne fun same => ?_
    rw [← (smaller_sublist less).eq_of_length same] at own
    simp [smaller] at own
  unfold rankOf
  omega

theorem denseRankOf_lt (mem : low ∈ values) : denseRankOf values low < denseRankOf values high := by
  have fewer : (smaller values low).toFinset.card < (smaller values high).toFinset.card := by
    refine Finset.card_lt_card ((Finset.ssubset_iff_of_subset fun other inside => ?_).mpr
      ⟨low, ?_, ?_⟩)
    · exact mem_toFinset.mpr ((smaller_sublist less).subset (mem_toFinset.mp inside))
    · exact mem_toFinset.mpr (mem_filter.mpr ⟨mem, decide_eq_true less⟩)
    · simp [smaller]
  unfold denseRankOf
  omega

end

/-- A function that grows along the values tells them apart. -/
theorem eq_iff_of_grows (grows : ∀ low ∈ values, ∀ high, low < high → measure low < measure high)
    {first second : Int64} (isFirst : first ∈ values) (isSecond : second ∈ values) :
    measure first = measure second ↔ first = second := by
  constructor
  · intro same
    rcases lt_trichotomy first second with less | equal | greater
    · exact absurd same (grows first isFirst second less).ne
    · exact equal
    · exact absurd same (grows second isSecond first greater).ne'
  · rintro rfl
    rfl

theorem rankOf_le (values : List Int64) (value : Int64) :
    rankOf values value ≤ values.length + 1 := by
  have := length_filter_le (fun other => decide (other < value)) values
  unfold rankOf smaller
  omega

theorem denseRankOf_le (values : List Int64) (value : Int64) :
    denseRankOf values value ≤ values.length + 1 := by
  have := (smaller values value).toFinset_card_le
  have := length_filter_le (fun other => decide (other < value)) values
  unfold denseRankOf
  unfold smaller at *
  omega

end Ranks

/-! ## Ranks of a partition -/

def WindowExpr.orderKey (expr : WindowExpr) (nInputCols : Nat) (vals : List Int64) : List Int64 :=
  expr.orderBy.map (WindowOp.columnOf nInputCols vals)

theorem orderVals_ok {expr : WindowExpr} {rows : List (List Int64)} {nInputCols : Nat}
    (wide : ∀ vals ∈ rows, vals.length = nInputCols) :
    rows.mapM (inputColumn nInputCols · expr.orderCol) =
      .ok (rows.map (columnOf nInputCols · expr.orderCol)) :=
  mapM_of_ok fun vals mem => inputColumn_of_length (wide vals mem) expr.orderCol

structure SortedBy (expr : WindowExpr) (nInputCols : Nat) (sortedRows : List (Bytes × List Int64)) :
    Prop where
  wide : ∀ row ∈ sortedRows, row.2.length = nInputCols
  keyed : ∀ row ∈ sortedRows, row.1 = encodeOrderCols (expr.orderKey nInputCols row.2)
  ordered : sortedRows.Pairwise fun left right => left.1 ≤ right.1

/-- Equal ranks exactly for equal keys. -/
def TiesByWholeKey (keys : List (List Int64)) (ranks : List (Option Int64)) : Prop :=
  ∀ i < keys.length, ∀ j < keys.length, ranks[i]? = ranks[j]? ↔ keys[i]? = keys[j]?

/-- Every rank is one plus the number of keys that precede strictly. -/
def CountsPreceding (keys : List (List Int64)) (ranks : List (Option Int64)) : Prop :=
  ranks = keys.map fun key => some (Int64.ofNat (1 + keys.countP fun other => other < key))

def FirstColumnDecides (keys : List (List Int64)) : Prop :=
  ∀ first ∈ keys, ∀ second ∈ keys, first.head? = second.head? → first = second

instance (keys : List (List Int64)) : Decidable (FirstColumnDecides keys) :=
  inferInstanceAs (Decidable (∀ first ∈ keys, ∀ second ∈ keys, _))

section Partition

variable {sortedRows : List (Bytes × List Int64)}

section

variable (sorted : SortedBy expr nInputCols sortedRows)
include sorted

/-- Sorted keys are sorted lexicographically, column by column. -/
theorem SortedBy.keys_ordered : (sortedRows.map fun row => expr.orderKey nInputCols row.2).Pairwise
      fun left right => ¬ right < left := by
  rw [pairwise_map]
  refine sorted.ordered.imp_of_mem fun isLeft isRight below less => not_lt.mpr below ?_
  rw [sorted.keyed _ isLeft, sorted.keyed _ isRight]
  exact (flatMap_minmaxSortKey_lt_iff (by simp [orderKey])).mpr less

theorem SortedBy.first_ordered (isOrder : expr.orderBy = col :: others) :
    (sortedRows.map fun row => columnOf nInputCols row.2 col).Pairwise (· ≤ ·) := by
  have keys := sorted.keys_ordered
  rw [pairwise_map] at keys ⊢
  refine keys.imp fun {left right} notLess => not_lt.mp fun less => notLess ?_
  unfold orderKey
  rw [isOrder, map_cons, map_cons]
  exact cons_lt_cons_iff.mpr (.inl less)

/-- A ranking function gives every row the rank of its value in the first ORDER BY column. -/
theorem SortedBy.evalRanking (isOrder : expr.orderBy = col :: others)
    (ranking : expr.func = .rank ∨ expr.func = .denseRank) :
    let values := sortedRows.map fun row => columnOf nInputCols row.2 col
    evalWindowExpr (sortedRows.map Prod.snd) nInputCols expr = .ok (counters (values.map
      (if expr.func = .rank then rankOf values else denseRankOf values))) := by
  have isCol : expr.orderCol = col := by rw [orderCol, isOrder]; rfl
  unfold evalWindowExpr
  rw [orderVals_ok (forall_mem_map.mpr sorted.wide), isCol, map_map]
  rcases ranking with isRank | isDense
  · rw [isRank]
    dsimp only
    rw [if_pos rfl, ← rankLoop_sorted (sorted.first_ordered isOrder)]
    rfl
  · rw [isDense]
    dsimp only
    rw [if_neg (by decide), ← denseLoop_sorted (sorted.first_ordered isOrder)]
    rfl

end

section

variable (own : evalWindowExpr (sortedRows.map Prod.snd) nInputCols expr = .ok column)
include own

theorem evalWindowBatch_column {windowExprs : List WindowExpr}
    {columns : List (List (Option Int64))}
    (evals : evalWindowBatch sortedRows windowExprs nInputCols = .ok columns) {k : Nat}
    (listed : windowExprs[k]? = some expr) : columns[k]? = some column := by
  have length := (mapM_eq_ok.mp evals).length_eq
  have inside : k < columns.length := length ▸ (List.getElem?_eq_some_iff.mp listed).1
  have isColumn := List.getElem?_eq_getElem inside
  have found := getElem_of_mapM_eq_ok evals listed isColumn
  rw [own] at found
  rw [isColumn, Except.ok.inj found]

theorem evalWindowBatch_single :
    evalWindowBatch sortedRows [expr] nInputCols = .ok [column] := by
  unfold evalWindowBatch
  rw [mapM_cons, own]
  rfl

end

theorem evalWindowBatch_single_iff : evalWindowBatch sortedRows [expr] nInputCols = .ok [column] ↔
      evalWindowExpr (sortedRows.map Prod.snd) nInputCols expr = .ok column := by
  refine ⟨fun evals => ?_, evalWindowBatch_single⟩
  have first : [expr][0]? = some expr := rfl
  exact getElem_of_mapM_eq_ok evals first rfl

end Partition

/-! ## RANK and DENSE_RANK from SQL -/

namespace Sql

/-- The values of columns in a row. -/
def keyColumns [ColumnIndex] (schema : DfSchema) (cols : List Column) (vals : List Int64) :
    List Int64 :=
  cols.map fun col => vals.getD ((indexOfColumn schema col).getD 0) 0

/-- A call of RANK or DENSE_RANK over one or more ORDER BY columns. -/
structure RankingCall [ColumnIndex] (schema : DfSchema) (cols : List Column)
    (call : WindowFunction DfExpr) : Prop where
  ranking : call.definition = .windowUdf "rank" ∨ call.definition = .windowUdf "dense_rank"
  orderBy : call.orderBy.map SortExpr.expr = cols.map .column
  columns : cols ≠ []
  resolved : ∀ col ∈ cols, (indexOfColumn schema col).isSome

section Ranking

variable [ColumnIndex] {cols : List Column}

theorem filterMap_columnIndex (resolved : ∀ col ∈ cols, (indexOfColumn schema col).isSome) :
    (cols.map DfExpr.column).filterMap (columnIndex? schema) =
      cols.map fun col => (indexOfColumn schema col).getD 0 := by
  rw [filterMap_map]
  induction cols with
  | nil => rfl
  | cons col cols ih =>
    obtain ⟨index, found⟩ := Option.isSome_iff_exists.mp (resolved col (by simp))
    have here : (columnIndex? schema ∘ DfExpr.column) col = some index := found
    rw [filterMap_cons_some here, map_cons, found,
      ih fun other mem => resolved other (by simp [mem])]
    rfl

theorem RankingCall.lowered (ranking : RankingCall schema cols call)
    (accepted : lowerWindowExpr (.windowFunction call) schema = .ok expr) :
    (expr.func = .rank ∨ expr.func = .denseRank) ∧
      (expr.func = .rank ↔ call.definition = .windowUdf "rank") ∧
      expr.orderBy = cols.map fun col => (indexOfColumn schema col).getD 0 := by
  obtain ⟨lowered, _, order⟩ := lowerWindowExpr_eq_ok accepted
  have isOrder : expr.orderBy = cols.map fun col => (indexOfColumn schema col).getD 0 := by
    rw [← filterMap_columnIndex ranking.resolved, ← ranking.orderBy, filterMap_map, order]
    rfl
  unfold lowerWindowFunc at lowered
  rcases ranking.ranking with isRank | isDense
  · rw [isRank] at lowered
    have func : expr.func = .rank := (Except.ok.inj lowered).symm
    exact ⟨.inl func, by simp [func, isRank], isOrder⟩
  · rw [isDense] at lowered
    have func : expr.func = .denseRank := (Except.ok.inj lowered).symm
    exact ⟨.inr func, by simp [func, isDense], isOrder⟩

theorem orderKey_eq_keyColumns (resolved : ∀ col ∈ cols, (indexOfColumn schema col).isSome)
    (order : expr.orderBy = cols.map fun col => (indexOfColumn schema col).getD 0)
    (vals : List Int64) : expr.orderKey schema.length vals = keyColumns schema cols vals := by
  unfold orderKey keyColumns
  rw [order, map_map]
  refine map_congr_left fun col mem => ?_
  obtain ⟨index, found⟩ := Option.isSome_iff_exists.mp (resolved col mem)
  show columnOf schema.length vals ((indexOfColumn schema col).getD 0) = _
  rw [found, Option.getD_some, columnOf, if_pos (indexOfColumn_lt found)]

end Ranking

end Sql

/-- Ranks given by a function of the keys tie where the function does. -/
theorem tiesByWholeKey_map_iff {keys : List (List Int64)} {rank : List Int64 → Option Int64} :
    TiesByWholeKey keys (keys.map rank) ↔
      ∀ first ∈ keys, ∀ second ∈ keys, rank first = rank second ↔ first = second := by
  constructor
  · intro ties first isFirst second isSecond
    obtain ⟨i, inside, isI⟩ := mem_iff_getElem.mp isFirst
    obtain ⟨j, insideJ, isJ⟩ := mem_iff_getElem.mp isSecond
    have tie := ties i inside j insideJ
    rw [getElem?_map, getElem?_map, List.getElem?_eq_getElem inside,
      List.getElem?_eq_getElem insideJ, isI, isJ] at tie
    simpa using tie
  · intro told i inside j insideJ
    rw [getElem?_map, getElem?_map, List.getElem?_eq_getElem inside,
      List.getElem?_eq_getElem insideJ]
    simpa using told _ (getElem_mem inside) _ (getElem_mem insideJ)

/-- The counters of a partition fit an `i64`. -/
theorem ofNat_inj_of_le {bound first second : Nat} (small : bound < 2 ^ 63)
    (isFirst : first ≤ bound + 1) (isSecond : second ≤ bound + 1) :
    Int64.ofNat first = Int64.ofNat second ↔ first = second := by
  constructor
  · intro same
    have bits := congrArg (fun value : Int64 => value.toUInt64.toNat) same
    simp only [Int64.toUInt64_ofNat', UInt64.toNat_ofNat'] at bits
    omega
  · exact congrArg Int64.ofNat

section KeyRanks

variable {keys : List (List Int64)}

theorem ties_iff_firstColumnDecides (nonempty : ∀ key ∈ keys, key ≠ [])
    (grows : ∀ low ∈ keys.map fun key => key.headD 0, ∀ high, low < high →
      measure low < measure high)
    (bounded : ∀ value, measure value ≤ keys.length + 1) (small : keys.length < 2 ^ 63) :
    TiesByWholeKey keys (keys.map fun key => some (Int64.ofNat (measure (key.headD 0)))) ↔
      FirstColumnDecides keys := by
  have heads : ∀ first ∈ keys, ∀ second ∈ keys,
      some (Int64.ofNat (measure (first.headD 0))) = some (Int64.ofNat (measure (second.headD 0))) ↔
        first.head? = second.head? := by
    intro first isFirst second isSecond
    rw [Option.some.injEq, ofNat_inj_of_le small (bounded _) (bounded _),
      eq_iff_of_grows grows (mem_map_of_mem isFirst) (mem_map_of_mem isSecond)]
    obtain ⟨head, tail, rfl⟩ := exists_cons_of_ne_nil (nonempty first isFirst)
    obtain ⟨otherHead, otherTail, rfl⟩ := exists_cons_of_ne_nil (nonempty second isSecond)
    simp
  rw [tiesByWholeKey_map_iff]
  constructor
  · intro told first isFirst second isSecond sameHead
    exact (told first isFirst second isSecond).mp
      ((heads first isFirst second isSecond).mpr sameHead)
  · intro decides first isFirst second isSecond
    rw [heads first isFirst second isSecond]
    exact ⟨decides first isFirst second isSecond, fun same => by rw [same]⟩

theorem rankOf_eq_countP (nonempty : ∀ key ∈ keys, key ≠ []) (decides : FirstColumnDecides keys)
    {key : List Int64} (mem : key ∈ keys) : rankOf (keys.map fun key => key.headD 0) (key.headD 0) =
      1 + keys.countP fun other => other < key := by
  unfold rankOf smaller
  rw [← countP_eq_length_filter, countP_map]
  congr 1
  refine countP_congr fun other isOther => ?_
  obtain ⟨head, tail, rfl⟩ := exists_cons_of_ne_nil (nonempty key mem)
  obtain ⟨otherHead, otherTail, rfl⟩ := exists_cons_of_ne_nil (nonempty other isOther)
  show decide (otherHead < head) = true ↔ decide (otherHead :: otherTail < head :: tail) = true
  rw [decide_eq_true_iff, decide_eq_true_iff, cons_lt_cons_iff]
  refine ⟨.inl, fun precedes => ?_⟩
  rcases precedes with less | ⟨sameHead, less⟩
  · exact less
  · have same := decides _ isOther _ mem (by simp [sameHead])
    rw [(cons_eq_cons.mp same).2] at less
    exact absurd less (lt_irrefl tail)

theorem counters_heads (keys : List (List Int64)) (measure : Int64 → Nat) :
    counters ((keys.map fun key => key.headD 0).map measure) =
      keys.map fun key => some (Int64.ofNat (measure (key.headD 0))) := by
  unfold counters
  rw [map_map, map_map]
  rfl

end KeyRanks

/-- RANK and DENSE_RANK over an ORDER BY list: a partition sorted by the whole list always
evaluates, and its ranks tie exactly for equal keys, with RANK counting the rows that precede
strictly, if and only if the first ORDER BY column decides the others. Ties are detected on that
column alone. -/
theorem ranks_follow_key_iff [ColumnIndex] (schema : DfSchema) (cols : List Column)
    (call : WindowFunction DfExpr) (ranking : RankingCall schema cols call) (expr : WindowExpr)
    (accepted : lowerWindowExpr (.windowFunction call) schema = .ok expr)
    (sortedRows : List (Bytes × List Int64)) (sorted : SortedBy expr schema.length sortedRows)
    (small : sortedRows.length < 2 ^ 63) :
    ∃ ranks, evalWindowBatch sortedRows [expr] schema.length = .ok [ranks] ∧
      (∀ windowExprs columns (k : Nat),
        evalWindowBatch sortedRows windowExprs schema.length = .ok columns →
        windowExprs[k]? = some expr → columns[k]? = some ranks) ∧
      ((TiesByWholeKey (sortedRows.map fun row => keyColumns schema cols row.2) ranks ∧
          (call.definition = .windowUdf "rank" →
            CountsPreceding (sortedRows.map fun row => keyColumns schema cols row.2) ranks)) ↔
        FirstColumnDecides (sortedRows.map fun row => keyColumns schema cols row.2)) := by
  obtain ⟨isRanking, isRank, order⟩ := ranking.lowered accepted
  obtain ⟨col, others, rfl⟩ := exists_cons_of_ne_nil ranking.columns
  have isValues : (sortedRows.map fun row =>
      columnOf schema.length row.2 ((indexOfColumn schema col).getD 0)) =
        (sortedRows.map fun row => keyColumns schema (col :: others) row.2).map
          fun key => key.headD 0 := by
    rw [map_map]
    refine map_congr_left fun row _ => ?_
    show _ = (keyColumns schema (col :: others) row.2).headD 0
    rw [← orderKey_eq_keyColumns ranking.resolved order, orderKey, order]
    rfl
  have nonempty : ∀ key ∈ sortedRows.map fun row => keyColumns schema (col :: others) row.2,
      key ≠ [] := by
    intro key member
    obtain ⟨row, _, rfl⟩ := mem_map.mp member
    exact cons_ne_nil _ _
  have own := sorted.evalRanking order isRanking
  rw [isValues] at own
  rw [← length_map (fun row => keyColumns schema (col :: others) row.2)] at small
  refine ⟨_, evalWindowBatch_single own, fun windowExprs columns k evaluated listed =>
    evalWindowBatch_column own evaluated listed, ?_⟩
  rcases isRanking with func | func
  · rw [func, if_pos rfl, counters_heads]
    have ties := ties_iff_firstColumnDecides nonempty
      (fun low member high less => rankOf_lt less member)
      (fun value => length_map (fun key : List Int64 => key.headD 0) ▸ rankOf_le _ value) small
    rw [ties]
    refine ⟨And.left, fun decides => ⟨decides, fun _ => ?_⟩⟩
    exact map_congr_left fun key member => by
      rw [rankOf_eq_countP nonempty decides member]
  · have notRank : call.definition ≠ .windowUdf "rank" := by
      rw [← isRank.ne, func]
      decide
    rw [func, if_neg (by decide), counters_heads]
    have ties := ties_iff_firstColumnDecides nonempty
      (fun low member high less => denseRankOf_lt less member)
      (fun value => length_map (fun key : List Int64 => key.headD 0) ▸ denseRankOf_le _ value) small
    rw [ties]
    exact ⟨And.left, fun decides => ⟨decides, fun isRank => absurd isRank notRank⟩⟩

/-- A table `t` with the Int64 columns `a` and `b`. -/
def sampleSchema : DfSchema :=
  [⟨some "t", ⟨"a", .int64, true⟩⟩, ⟨some "t", ⟨"b", .int64, true⟩⟩]

/-- `RANK() OVER (ORDER BY t.a, t.b)`. -/
def rankCall : WindowFunction DfExpr :=
  ⟨.windowUdf "rank", [], [], [⟨.column ⟨some "t", "a"⟩, true, false⟩,
    ⟨.column ⟨some "t", "b"⟩, true, false⟩], .range, .preceding .null⟩

def sampleOrder : WindowExpr := ⟨.rank, [], [0, 1]⟩

def sampleRows (rows : List (List Int64)) : List (Bytes × List Int64) :=
  rows.map fun vals => (encodeOrderCols (sampleOrder.orderKey 2 vals), vals)

theorem ranks_follow_key_iff_sample :
    ∃ ranks, evalWindowBatch (sampleRows [[1, 1], [2, 1]]) [sampleOrder] 2 = .ok [ranks] ∧
      FirstColumnDecides ((sampleRows [[1, 1], [2, 1]]).map fun row =>
        keyColumns sampleSchema [⟨some "t", "a"⟩, ⟨some "t", "b"⟩] row.2) ∧
      TiesByWholeKey ((sampleRows [[1, 1], [2, 1]]).map fun row =>
        keyColumns sampleSchema [⟨some "t", "a"⟩, ⟨some "t", "b"⟩] row.2) ranks := by
  obtain ⟨ranks, evaluated, _, law⟩ := ranks_follow_key_iff sampleSchema
    [⟨some "t", "a"⟩, ⟨some "t", "b"⟩] rankCall
    ⟨Or.inl rfl, rfl, by decide, by decide⟩ sampleOrder rfl (sampleRows [[1, 1], [2, 1]])
    ⟨by decide, by decide, by decide⟩ (by decide)
  have decides : FirstColumnDecides ((sampleRows [[1, 1], [2, 1]]).map fun row =>
      keyColumns sampleSchema [⟨some "t", "a"⟩, ⟨some "t", "b"⟩] row.2) := by decide
  exact ⟨ranks, evaluated, decides, (law.mpr decides).1⟩

/-- Rows that differ in the second ORDER BY column share a rank. -/
theorem second_order_column_ignored :
    lowerWindowExpr (.windowFunction rankCall) sampleSchema = .ok sampleOrder ∧
      evalWindowBatch (sampleRows [[1, 1], [1, 2]]) [sampleOrder] 2 = .ok [[some 1, some 1]] ∧
      SortedBy sampleOrder 2 (sampleRows [[1, 1], [1, 2]]) ∧
      ¬ TiesByWholeKey ((sampleRows [[1, 1], [1, 2]]).map fun row =>
        keyColumns sampleSchema [⟨some "t", "a"⟩, ⟨some "t", "b"⟩] row.2) [some 1, some 1] := by
  refine ⟨rfl, by decide, ⟨by decide, by decide, by decide⟩, fun ties => ?_⟩
  exact absurd ((ties 0 (by decide) 1 (by decide)).mp rfl) (by decide)

/-! ## LAG and LEAD from SQL -/

section Offsets

theorem leadAt_overflow (offset col i : Nat) (beyond : 2 ^ 64 ≤ i + offset) :
    leadAt rows nInputCols offset col i = .error .overflow := by
  unfold leadAt addUsize
  rw [if_neg (not_lt.mpr beyond)]
  rfl

variable (wide : ∀ vals ∈ rows, vals.length = nInputCols)

include wide

theorem columnAt_of_lt {position : Nat} {vals : List Int64}
    (isRow : rows[position]? = some vals) (col : Nat) :
    columnAt rows nInputCols position col = .ok (columnOf nInputCols vals col) := by
  unfold columnAt
  rw [isRow]
  exact inputColumn_of_length (wide vals (mem_of_getElem? isRow)) col

theorem lagAt_eq (offset col : Nat) (inside : i < rows.length) :
    lagAt rows nInputCols offset col i = .ok (if offset ≤ i then
      (rows[i - offset]?).map (columnOf nInputCols · col) else none) := by
  unfold lagAt
  split
  · have isRow := List.getElem?_eq_getElem (lt_of_le_of_lt (Nat.sub_le i offset) inside)
    rw [isRow, columnAt_of_lt wide isRow]
    rfl
  · rfl

theorem leadAt_eq {offset : Nat} (col : Nat) (fits : i + offset < 2 ^ 64) :
    leadAt rows nInputCols offset col i =
      .ok ((rows[i + offset]?).map (columnOf nInputCols · col)) := by
  unfold leadAt addUsize
  rw [if_pos fits]
  show (if i + offset < rows.length then _ else _) = _
  split
  · next inside =>
    have isRow := List.getElem?_eq_getElem inside
    rw [isRow, columnAt_of_lt wide isRow]
    rfl
  · next outside =>
    rw [getElem?_eq_none (not_lt.mp outside)]
    rfl

end Offsets

namespace Sql

/-- A meaning of constant expressions as distances of at most 64 bits: a literal is its value. -/
structure DistanceMeaning where
  eval : DfExpr → Option Int
  int64 : ∀ value, eval (.literal (.int64 value)) = some value.toInt
  int32 : ∀ value, eval (.literal (.int32 value)) = some value.toInt
  uint64 : ∀ value, eval (.literal (.uint64 value)) = some (value.toNat : Int)
  inRange : ∀ {expr n}, eval expr = some n → -2 ^ 63 ≤ n ∧ n < 2 ^ 64

/-- The number of rows that LAG and LEAD move by: one, or the meaning of the second argument. -/
def DistanceMeaning.sqlOffset (distances : DistanceMeaning) : List DfExpr → Option Int
  | [] => none
  | [_] => some 1
  | _ :: distance :: _ => distances.eval distance

structure OffsetCall [ColumnIndex] (distances : DistanceMeaning) (schema : DfSchema) (v : Column)
    (n : Int) (call : WindowFunction DfExpr) : Prop where
  function : call.definition = .windowUdf "lag" ∨ call.definition = .windowUdf "lead"
  value : call.args.head? = some (.column v)
  offset : distances.sqlOffset call.args = some n
  resolved : (indexOfColumn schema v).isSome

/-- The position that LAG or LEAD reads at row `i`. -/
def sourcePosition (call : WindowFunction DfExpr) (n : Int) (i : Nat) : Int :=
  if call.definition = .windowUdf "lag" then i - n else i + n

def rowAt (rows : List (List Int64)) (position : Int) : Option (List Int64) :=
  if position < 0 then none else rows[position.toNat]?

/-- The values of a column in the rows that LAG or LEAD reads, with NULL where there is no row. -/
def offsetColumn [ColumnIndex] (schema : DfSchema) (v : Column) (n : Int)
    (call : WindowFunction DfExpr)
    (rows : List (List Int64)) : List (Option Int64) :=
  (range rows.length).map fun i => (rowAt rows (sourcePosition call n i)).map fun source =>
    source.getD ((indexOfColumn schema v).getD 0) 0

/-- The column that the evaluation reads: the first ORDER BY column, or the first column. -/
def readColumn [ColumnIndex] (schema : DfSchema) (call : WindowFunction DfExpr) : Nat :=
  (call.orderBy.filterMap fun sort => columnIndex? schema sort.expr).head?.getD 0

section OffsetCalls

variable [ColumnIndex] {distances : DistanceMeaning}
  (isCall : OffsetCall distances schema v n call)
include isCall

theorem OffsetCall.inRange : -2 ^ 63 ≤ n ∧ n < 2 ^ 64 := by
  have offset := isCall.offset
  unfold DistanceMeaning.sqlOffset at offset
  split at offset
  · cases offset
  · cases offset
    decide
  · exact distances.inRange offset

/-- The lowered offset is the SQL offset, modulo the range of `usize`, or one. -/
theorem OffsetCall.offset_eq : ((extractLagLeadOffset call.args 1 : Nat) : Int) = n % 2 ^ 64 ∨
      extractLagLeadOffset call.args 1 = 1 := by
  have signed : ∀ value : Int64, ((asUsize value : Nat) : Int) = value.toInt % 2 ^ 64 := by
    intro value
    have isInt : value.toInt = _ := BitVec.toInt_eq_toNat_cond value.toUInt64.toBitVec
    have isNat : value.toUInt64.toBitVec.toNat = value.toUInt64.toNat := rfl
    show (value.toUInt64.toNat : Int) = _
    rw [isInt]
    split <;> omega
  have offset := isCall.offset
  unfold extractLagLeadOffset
  split
  · next value _ isArgs =>
    rw [isArgs, DistanceMeaning.sqlOffset, distances.int64] at offset
    cases offset
    exact .inl (signed value)
  · next value _ isArgs =>
    rw [isArgs, DistanceMeaning.sqlOffset, distances.int32] at offset
    cases offset
    rw [← Int32.toInt_toInt64]
    exact .inl (signed value.toInt64)
  · next value _ isArgs =>
    rw [isArgs, DistanceMeaning.sqlOffset, distances.uint64] at offset
    cases offset
    have bound := value.toNat_lt
    exact .inl (by omega)
  · exact .inr rfl

theorem OffsetCall.lowered (accepted : lowerWindowExpr (.windowFunction call) schema = .ok expr) :
    expr.func = (if call.definition = .windowUdf "lag" then
        .lag (extractLagLeadOffset call.args 1) else .lead (extractLagLeadOffset call.args 1)) ∧
      expr.orderCol = readColumn schema call := by
  obtain ⟨lowered, _, order⟩ := lowerWindowExpr_eq_ok accepted
  refine ⟨?_, by rw [orderCol, order]; rfl⟩
  unfold lowerWindowFunc at lowered
  rcases isCall.function with isLag | isLead
  · rw [isLag] at lowered ⊢
    exact (Except.ok.inj lowered).symm
  · rw [isLead] at lowered ⊢
    exact (Except.ok.inj lowered).symm

theorem OffsetCall.readColumn_lt :
    readColumn schema call < schema.length := by
  obtain ⟨index, found⟩ := Option.isSome_iff_exists.mp isCall.resolved
  have columns := lt_of_le_of_lt (Nat.zero_le index) (indexOfColumn_lt found)
  unfold readColumn
  cases first : (call.orderBy.filterMap fun sort => columnIndex? schema sort.expr).head? with
  | none => exact columns
  | some col =>
    have mem := mem_of_mem_head? (Option.mem_def.mpr first)
    obtain ⟨sort, _, isCol⟩ := mem_filterMap.mp mem
    unfold columnIndex? at isCol
    split at isCol
    · exact indexOfColumn_lt isCol
    · cases isCol

end OffsetCalls

end Sql

section OffsetEvaluation

variable {offset : Nat} (wide : ∀ vals ∈ rows, vals.length = nInputCols)

include wide

theorem evalLag (isLag : expr.func = .lag offset) :
    evalWindowExpr rows nInputCols expr = .ok ((range rows.length).map fun i =>
      if offset ≤ i then (rows[i - offset]?).map (columnOf nInputCols · expr.orderCol)
      else none) := by
  unfold evalWindowExpr
  rw [orderVals_ok wide, isLag]
  exact mapM_of_ok fun i mem => lagAt_eq wide offset expr.orderCol (mem_range.mp mem)

/-- LEAD over a partition, while no position overflows. -/
theorem evalLead (isLead : expr.func = .lead offset)
    (fits : ∀ i < rows.length, i + offset < 2 ^ 64) :
    evalWindowExpr rows nInputCols expr = .ok ((range rows.length).map fun i =>
      (rows[i + offset]?).map (columnOf nInputCols · expr.orderCol)) := by
  unfold evalWindowExpr
  rw [orderVals_ok wide, isLead]
  exact mapM_of_ok fun i mem => leadAt_eq wide expr.orderCol (fits i (mem_range.mp mem))

/-- LEAD panics where a position overflows. -/
theorem evalLead_overflow (isLead : expr.func = .lead offset) (inside : i < rows.length)
    (beyond : 2 ^ 64 ≤ i + offset)
    (column : List (Option Int64)) : evalWindowExpr rows nInputCols expr ≠ .ok column := by
  intro evals
  unfold evalWindowExpr at evals
  rw [orderVals_ok wide, isLead] at evals
  have mapped : (range rows.length).mapM (leadAt rows nInputCols offset expr.orderCol) =
    .ok column := evals
  have length := (mapM_eq_ok.mp mapped).length_eq
  rw [length_range] at length
  have isResult := List.getElem?_eq_getElem (length ▸ inside)
  have called := getElem_of_mapM_eq_ok mapped (getElem?_range inside) isResult
  rw [leadAt_overflow offset expr.orderCol i beyond] at called
  cases called

end OffsetEvaluation

namespace Sql

/-- Every row that LAG or LEAD reads lies in the direction of the call, and holds in the read column
the value of the argument column. -/
def ReadsValue [ColumnIndex] (schema : DfSchema) (v : Column) (n : Int)
    (call : WindowFunction DfExpr)
    (rows : List (List Int64)) : Prop :=
  ∀ i < rows.length, ∀ source, rowAt rows (sourcePosition call n i) = some source →
    0 ≤ n ∧ source.getD ((indexOfColumn schema v).getD 0) 0 =
      source.getD (readColumn schema call) 0

section OffsetLaw

variable [ColumnIndex]

theorem map_eq_offsetColumn_iff : (range rows.length).map code = offsetColumn schema v n call rows ↔
      ∀ i < rows.length, code i = (rowAt rows (sourcePosition call n i)).map fun source =>
        source.getD ((indexOfColumn schema v).getD 0) 0 := by
  unfold offsetColumn
  rw [map_inj_left]
  exact forall_congr' fun i => by rw [mem_range]

/-- A computation that reads the right rows, and none backwards, gives the right values exactly when
the read column holds them. -/
theorem reads_iff (reads : ∀ i < rows.length, code i = if n < 0 then none else
      (rowAt rows (sourcePosition call n i)).map fun source =>
        source.getD (readColumn schema call) 0) :
    (range rows.length).map code = offsetColumn schema v n call rows ↔
      ReadsValue schema v n call rows := by
  rw [map_eq_offsetColumn_iff]
  refine forall₂_congr fun i inside => ?_
  rw [reads i inside, ← not_lt]
  cases rowAt rows (sourcePosition call n i) with
  | none => simp
  | some source => by_cases backward : n < 0 <;> simp [backward, eq_comm]

omit [ColumnIndex] in
theorem isSome_rowAt (position : Int) :
    (rowAt rows position).isSome ↔ 0 ≤ position ∧ position < rows.length := by
  unfold rowAt
  split
  · simp
    omega
  · rw [isSome_getElem?]
    omega

/-- A computation that reads the next row for another distance is right on one row at most. -/
theorem reads_next_iff (differs : n ≠ 1) (reads : ∀ i < rows.length, (code i).isSome ↔
      (rowAt rows (sourcePosition call 1 i)).isSome) :
    (range rows.length).map code = offsetColumn schema v n call rows ↔
      rows = [] ∨ rows.length = 1 ∧ n ≠ 0 := by
  simp only [isSome_rowAt] at reads
  rw [map_eq_offsetColumn_iff]
  constructor
  · intro same
    have found : ∀ i < rows.length, (0 ≤ sourcePosition call 1 i ∧
        sourcePosition call 1 i < rows.length) ↔
          (0 ≤ sourcePosition call n i ∧ sourcePosition call n i < rows.length) := by
      intro i inside
      rw [← reads i inside, same i inside, Option.isSome_map, isSome_rowAt]
    rw [← length_eq_zero_iff]
    by_contra! wrong
    have first := found 0 (by omega)
    have last := found (rows.length - 1) (by omega)
    unfold sourcePosition at first last
    rcases eq_or_ne rows.length 1 with single | several
    · have zero := wrong.2 single
      subst zero
      split_ifs at first <;> omega
    · have second := found 1 (by omega)
      have previous := found (rows.length - 2) (by omega)
      unfold sourcePosition at second previous
      split_ifs at first last second previous <;> omega
  · rintro (rfl | ⟨single, apart⟩) i inside
    · cases inside
    · have isFirst : i = 0 := by omega
      subst isFirst
      have absent : ¬ (code 0).isSome := by
        rw [reads 0 inside]
        unfold sourcePosition
        split <;> omega
      have noRow : ¬ (rowAt rows (sourcePosition call n 0)).isSome := by
        rw [isSome_rowAt]
        unfold sourcePosition
        split <;> omega
      rw [Option.not_isSome_iff_eq_none.mp absent, Option.not_isSome_iff_eq_none.mp noRow]
      rfl

end OffsetLaw

end Sql

section OffsetValues

variable [ColumnIndex] {distances : DistanceMeaning}
  (isCall : OffsetCall distances schema v n call)
  (accepted : lowerWindowExpr (.windowFunction call) schema = .ok expr)
  (wide : ∀ vals ∈ rows, vals.length = schema.length) (small : rows.length < 2 ^ 63)
include isCall accepted

theorem Sql.OffsetCall.columnOf_eq (source : List Int64) :
    columnOf schema.length source expr.orderCol = source.getD (readColumn schema call) 0 := by
  rw [(isCall.lowered accepted).2, columnOf, if_pos isCall.readColumn_lt]

include wide small

theorem eval_of_kept
    (offset : ((extractLagLeadOffset call.args 1 : Nat) : Int) = n % 2 ^ 64) :
    evalWindowExpr rows schema.length expr = .ok (offsetColumn schema v n call rows) ↔
      (call.definition = .windowUdf "lead" → n + rows.length ≤ 2 ^ 64) ∧
        ReadsValue schema v n call rows := by
  obtain ⟨func, _⟩ := isCall.lowered accepted
  obtain ⟨lower, upper⟩ := isCall.inRange
  have column := isCall.columnOf_eq accepted
  rcases isCall.function with isLag | isLead
  · have notLead : call.definition ≠ .windowUdf "lead" := by
      rw [isLag]
      decide
    have position : ∀ i : Nat, sourcePosition call n i = i - n := fun i => if_pos isLag
    rw [if_pos isLag] at func
    rw [evalLag wide func, Except.ok.injEq,
      and_iff_right fun isLead => absurd isLead notLead]
    rcases lt_or_ge n 0 with backward | forward
    · -- The distance wrapped around to a `usize` beyond every row.
      refine reads_iff fun i inside => ?_
      rw [if_pos backward, if_neg (by omega)]
    · refine reads_iff fun i inside => ?_
      rw [if_neg (not_lt.mpr forward), position i]
      unfold rowAt
      split
      · next close =>
        rw [if_neg (by omega), ← funext column]
        congr 2
        omega
      · next far => rw [if_pos (by omega), Option.map_none]
  · have notLag : call.definition ≠ .windowUdf "lag" := by
      rw [isLead]
      decide
    have position : ∀ i : Nat, sourcePosition call n i = i + n := fun i => if_neg notLag
    rw [if_neg notLag] at func
    rw [forall_prop_of_true isLead]
    rcases lt_or_ge n 0 with backward | forward
    · rw [and_iff_right (by omega)]
      rcases lt_or_ge (-n) rows.length with reached | unreached
      · -- Some row has a row at this distance before it, where the code overflows.
        have inside : (-n).toNat < rows.length := by omega
        refine iff_of_false (evalLead_overflow wide func inside (by omega) _) fun reads => ?_
        have found : rowAt rows (sourcePosition call n (-n).toNat) = rows[0]? := by
          rw [position]
          unfold rowAt
          rw [if_neg (by omega)]
          congr 1
          omega
        rw [List.getElem?_eq_getElem (by omega)] at found
        exact absurd (reads _ inside _ found).1 (not_le.mpr backward)
      · rw [evalLead wide func fun i inside => by omega, Except.ok.injEq]
        refine reads_iff fun i inside => ?_
        rw [if_pos backward, getElem?_eq_none (by omega), Option.map_none]
    · rcases le_or_gt (n + rows.length) (2 ^ 64) with fits | beyond
      · rw [and_iff_right fits, evalLead wide func fun i inside => by omega, Except.ok.injEq]
        refine reads_iff fun i inside => ?_
        rw [if_neg (not_lt.mpr forward), position i, ← funext column]
        unfold rowAt
        rw [if_neg (by omega)]
        congr 2
        omega
      · have inside : rows.length - 1 < rows.length := by omega
        exact iff_of_false (evalLead_overflow wide func inside (by omega) _)
          fun both => absurd both.1 (not_le.mpr beyond)

/-- Another second argument is lowered to the distance one. -/
theorem eval_of_next (isOne : extractLagLeadOffset call.args 1 = 1) (differs : n ≠ 1) :
    evalWindowExpr rows schema.length expr = .ok (offsetColumn schema v n call rows) ↔
      rows = [] ∨ rows.length = 1 ∧ n ≠ 0 := by
  obtain ⟨func, _⟩ := isCall.lowered accepted
  rw [isOne] at func
  rcases isCall.function with isLag | isLead
  · rw [if_pos isLag] at func
    rw [evalLag wide func, Except.ok.injEq]
    refine reads_next_iff differs fun i inside => ?_
    rw [isSome_rowAt, sourcePosition, if_pos isLag]
    split
    · rw [Option.isSome_map, isSome_getElem?]
      omega
    · simp
      omega
  · have notLag : call.definition ≠ .windowUdf "lag" := by
      rw [isLead]
      decide
    rw [if_neg notLag] at func
    rw [evalLead wide func fun i inside => by omega, Except.ok.injEq]
    refine reads_next_iff differs fun i inside => ?_
    rw [isSome_rowAt, sourcePosition, if_neg notLag, Option.isSome_map, isSome_getElem?]
    omega

end OffsetValues

/-- The offset survives the lowering, or the rows are too few to show it. -/
def KeepsOffset (call : WindowFunction DfExpr) (n : Int) (rows : List (List Int64)) : Prop :=
  ((extractLagLeadOffset call.args 1 : Nat) : Int) = n % 2 ^ 64 ∨ rows = [] ∨
    rows.length = 1 ∧ n ≠ 0

/-- `LAG(t.b, n) OVER (ORDER BY t.a)`. -/
def lagCall (n : Int64) : WindowFunction DfExpr :=
  ⟨.windowUdf "lag", [.column ⟨some "t", "b"⟩, .literal (.int64 n)], [],
    [⟨.column ⟨some "t", "a"⟩, true, false⟩], .rows, .preceding .null⟩

/-- Literals of the three types that the lowering reads. -/
def literalDistance : DfExpr → Option Int
  | .literal (.int64 value) => some value.toInt
  | .literal (.int32 value) => some value.toInt
  | .literal (.uint64 value) => some value.toNat
  | _ => none

theorem literalDistance_inRange {expr : DfExpr} (found : literalDistance expr = some n) :
    -2 ^ 63 ≤ n ∧ n < 2 ^ 64 := by
  unfold literalDistance at found
  split at found <;> cases found
  · next value =>
    have bounds := Int64.toInt_inI64 value
    unfold InI64 at bounds
    omega
  · next value =>
    have bounds := Int64.toInt_inI64 value.toInt64
    unfold InI64 at bounds
    rw [Int32.toInt_toInt64] at bounds
    omega
  · next value =>
    have bound := value.toNat_lt
    omega

def literalDistances : DistanceMeaning :=
  ⟨literalDistance, fun _ => rfl, fun _ => rfl, fun _ => rfl, literalDistance_inRange⟩

end RockStream
