import RockStream.MinMax.Op
import RockStream.Lib.Running

/-!
Contract: MIN/MAX batch equivalence over runs.

The law holds for every run in which, after every single row, each (group, value) has a
running weight in the range `0 ≤ weight < 2 ^ 63`; and a run succeeds exactly then. The
order of the rows inside a batch therefore matters for success, and only for success.

Owns:
- `Represents`, the multisets and the cache of an accumulated input;
- `IsExtremum`, the true minimum or maximum of a group;
- `Admissible`, and `processDelta_extremum`, the law with its exact condition.

Does not own: rows with a NULL key or value, whose raw slots the operator reads.
-/

namespace RockStream

open Lib Weighted List ArrowZSet BTreeMap HashMap Running

variable {key extremum value : Int64} {kind : MinMaxKind}

/-- The order of a kind: the extremum stands before every other value. -/
def MinMaxKind.Before (kind : MinMaxKind) (left right : Int64) : Prop :=
  match kind with
  | .min => left ≤ right
  | .max => right ≤ left

instance (kind : MinMaxKind) (left right : Int64) : Decidable (kind.Before left right) := by
  unfold MinMaxKind.Before
  cases kind <;> infer_instance

theorem MinMaxKind.Before.antisymm {left right : Int64} (forward : kind.Before left right)
    (backward : kind.Before right left) : left = right := by
  cases kind with
  | min => exact Int64.le_antisymm forward backward
  | max => exact Int64.le_antisymm backward forward

theorem MinMaxKind.before_of_compare {left right : Int64}
    (less : compare (minmaxSortKey left kind.invert) (minmaxSortKey right kind.invert) = .lt) :
    kind.Before left right := by
  rw [compare_minmaxSortKey] at less
  cases kind with
  | min => exact Int64.le_of_lt less
  | max => exact Int64.le_of_lt less

theorem MinMaxKind.Before.refl (kind : MinMaxKind) (value : Int64) : kind.Before value value := by
  cases kind <;> exact Int64.le_refl value

namespace MinMaxState

/-! ## Multisets -/

theorem lookup_trueExtremum (kind : MinMaxKind) (multiset : HashMap Int64 (BTreeMap Bytes Int))
    (key : Int64) : trueExtremum kind multiset key =
      (firstKey (groupOf multiset key)).map fun sortKey =>
        minmaxSortKeyDecode sortKey kind.invert := by
  unfold trueExtremum groupOf
  cases multiset.lookup key <;> rfl

/-- One value of one group gets a new weight; a weight of zero removes it. -/
theorem get_groupOf_reweighted (state : MinMaxState) (key : Int64) (sortKey other : Bytes)
    (weight : Int) : (groupOf (state.reweighted key sortKey weight) key)[other]? =
      if other = sortKey then if weight = 0 then none else some weight
      else (groupOf state.multiset key)[other]? := by
  unfold reweighted withoutValue
  split
  · split
    · next hollow =>
      have nothing := isEmpty_iff.mp hollow other
      rw [get_erase] at nothing
      rw [groupOf, lookup_erase_eq, if_pos rfl]
      by_cases isValue : other = sortKey
      · simp [isValue]
      · simpa [isValue, eq_comm] using nothing
    · rw [groupOf, lookup_insert_eq, if_pos rfl, Option.getD_some, get_erase]
  · rw [groupOf, lookup_insert_eq, if_pos rfl, Option.getD_some, get_insert]

theorem groupOf_reweighted (state : MinMaxState) {key query : Int64} (ne : query ≠ key)
    (sortKey : Bytes) (weight : Int) :
    groupOf (state.reweighted key sortKey weight) query = groupOf state.multiset query := by
  unfold groupOf reweighted withoutValue
  split
  · split
    · rw [lookup_erase_eq, if_neg ne]
    · rw [lookup_insert_eq, if_neg ne]
  · rw [lookup_insert_eq, if_neg ne]

/-- The multisets hold the accumulated positive weights, and the cache the true extrema. -/
structure Represents (kind : MinMaxKind) (state : MinMaxState) (pairs : Pairs) : Prop where
  weights : ∀ key value, ((groupOf state.multiset key)[minmaxSortKey value kind.invert]?).getD 0 =
    weight pairs (key, value)
  entries : ∀ key (sortKey : Bytes) stored, (groupOf state.multiset key)[sortKey]? = some stored →
    0 < stored ∧ ∃ value, sortKey = minmaxSortKey value kind.invert
  cached : ∀ key, state.extremumCache.lookup key = trueExtremum kind state.multiset key

theorem represents_new (kind : MinMaxKind) : Represents kind new [] where
  weights := fun key value => by simp [new, groupOf]
  entries := fun key sortKey stored found => by simp [new, groupOf] at found
  cached := fun key => rfl

end MinMaxState

/-! ## The true extremum -/

/-- The minimum (maximum) of a group's values of positive weight. -/
def IsExtremum (kind : MinMaxKind) (pairs : Pairs) (key extremum : Int64) : Prop :=
  0 < weight pairs (key, extremum) ∧
    ∀ pair ∈ pairs, pair.1.1 = key → 0 < weight pairs pair.1 → kind.Before extremum pair.1.2

instance (kind : MinMaxKind) (pairs : Pairs) (key extremum : Int64) :
    Decidable (IsExtremum kind pairs key extremum) :=
  inferInstanceAs (Decidable (_ ∧ ∀ pair ∈ pairs, _))

theorem IsExtremum.before {pairs : Pairs} (isExtremum : IsExtremum kind pairs key extremum)
    (positive : 0 < weight pairs (key, value)) : kind.Before extremum value := by
  obtain ⟨pair, mem, same⟩ := exists_of_weight_ne_zero (Int.ne_of_gt positive)
  have before := isExtremum.2 pair mem (by rw [same]) (by rw [same]; exact positive)
  rw [same] at before
  exact before

namespace MinMaxState

variable {state : MinMaxState} {pairs : Pairs}

variable (represents : Represents kind state pairs)
include represents

theorem Represents.isSome_of_pos (positive : 0 < weight pairs (key, value)) :
    ((groupOf state.multiset key)[minmaxSortKey value kind.invert]?).isSome = true := by
  rw [← represents.weights] at positive
  cases found : (groupOf state.multiset key)[minmaxSortKey value kind.invert]? with
  | some stored => rfl
  | none =>
    rw [found] at positive
    exact absurd positive (lt_irrefl 0)

theorem Represents.isExtremum_of_trueExtremum
    (found : trueExtremum kind state.multiset key = some extremum) :
    IsExtremum kind pairs key extremum := by
  rw [lookup_trueExtremum] at found
  obtain ⟨sortKey, first, decoded⟩ := Option.map_eq_some_iff.mp found
  obtain ⟨present, least⟩ := firstKey_eq_some first
  obtain ⟨stored, isStored⟩ := Option.isSome_iff_exists.mp present
  obtain ⟨positive, value, rfl⟩ := represents.entries key sortKey stored isStored
  rw [minmaxSortKeyDecode_minmaxSortKey] at decoded
  subst decoded
  refine ⟨?_, fun pair _ sameKey pairPositive => ?_⟩
  · rw [← represents.weights, isStored]
    exact positive
  · rw [show pair.1 = (key, pair.1.2) from Prod.ext sameKey rfl] at pairPositive
    have held := represents.isSome_of_pos pairPositive
    rcases least _ held with same | less
    · rw [minmaxSortKey_injective same]
      exact MinMaxKind.Before.refl kind value
    · exact MinMaxKind.before_of_compare less

/-- The first key of a group is its true extremum, and there is one where a value has positive
weight. -/
theorem Represents.trueExtremum_eq_some_iff :
    trueExtremum kind state.multiset key = some extremum ↔ IsExtremum kind pairs key extremum := by
  constructor
  · exact represents.isExtremum_of_trueExtremum
  · intro isExtremum
    cases found : trueExtremum kind state.multiset key with
    | some other =>
      have otherIs := represents.isExtremum_of_trueExtremum found
      rw [(otherIs.before isExtremum.1).antisymm (isExtremum.before otherIs.1)]
    | none =>
      rw [lookup_trueExtremum, Option.map_eq_none_iff, firstKey_eq_none_iff] at found
      have held := represents.isSome_of_pos isExtremum.1
      rw [found] at held
      cases held

end MinMaxState

/-! ## One row -/

namespace MinMaxState

variable {state : MinMaxState} {pairs : Pairs}

theorem lookup_recached (kind : MinMaxKind) (state : MinMaxState) (key query : Int64)
    (multiset : HashMap Int64 (BTreeMap Bytes Int)) :
    (recached kind state key multiset).extremumCache.lookup query =
      if query = key then trueExtremum kind multiset key else state.extremumCache.lookup query := by
  unfold recached
  cases trueExtremum kind multiset key with
  | some extremum => exact lookup_insert_eq state.extremumCache key query extremum
  | none => exact lookup_erase_eq state.extremumCache key query

theorem Represents.newWeight (represents : Represents kind state pairs) (key value : Int64)
    (delta : Int) :
    ((groupOf state.multiset key)[minmaxSortKey value kind.invert]?).getD 0 + delta =
      weight (pairs ++ [((key, value), delta)]) (key, value) := by
  rw [represents.weights]
  simp

theorem Represents.reweighted (represents : Represents kind state pairs) (key value : Int64)
    (delta : Int) (fits : 0 ≤ weight (pairs ++ [((key, value), delta)]) (key, value)) :
    Represents kind (recached kind state key (state.reweighted key (minmaxSortKey value kind.invert)
        (((groupOf state.multiset key)[minmaxSortKey value kind.invert]?).getD 0 + delta)))
      (pairs ++ [((key, value), delta)]) := by
  rw [represents.newWeight]
  refine ⟨fun query other => ?_, fun query sortKey stored found => ?_, fun query => ?_⟩
  · show ((groupOf (state.reweighted key _ _) query)[_]?).getD 0 = _
    by_cases same : query = key
    · subst same
      rw [get_groupOf_reweighted]
      by_cases isValue : other = value
      · subst isValue
        rw [if_pos rfl]
        split
        · next zero => exact zero.symm
        · rfl
      · rw [if_neg fun equal => isValue (minmaxSortKey_injective equal), represents.weights]
        simp [Ne.symm isValue]
    · rw [groupOf_reweighted state same, represents.weights]
      simp [Ne.symm same]
  · have found : (groupOf (state.reweighted key _ _) query)[sortKey]? = some stored := found
    by_cases same : query = key
    · subst same
      rw [get_groupOf_reweighted] at found
      split at found
      · next isValue =>
        split at found
        · cases found
        · cases found
          exact ⟨by omega, value, isValue⟩
      · exact represents.entries query sortKey stored found
    · rw [groupOf_reweighted state same] at found
      exact represents.entries query sortKey stored found
  · rw [lookup_recached]
    split
    · next same =>
      rw [same]
      rfl
    · next ne =>
      show _ = trueExtremum kind (state.reweighted key _ _) query
      rw [represents.cached, lookup_trueExtremum, lookup_trueExtremum, groupOf_reweighted state ne]

/-- A running weight that the operator accepts. -/
def Fits (pairs : Pairs) (pair : Int64 × Int64) : Prop :=
  0 ≤ weight pairs pair ∧ weight pairs pair < 2 ^ 63

/-- What a successful row says of the caches before and after it. -/
structure Applied (kind : MinMaxKind) (state : MinMaxState) (pairs : Pairs) (key : Int64)
    (result : (Option Int64 × Option Int64) × MinMaxState) : Prop where
  old : result.1.1 = state.extremumCache.lookup key
  new : result.1.2 = result.2.extremumCache.lookup key
  others : ∀ query, query ≠ key →
    result.2.extremumCache.lookup query = state.extremumCache.lookup query
  represents : Represents kind result.2 pairs

/-- A row succeeds exactly when its running weight is accepted. -/
theorem Represents.applyDelta_spec (represents : Represents kind state pairs) (key value : Int64)
    (delta : Int) : Meets (fun _ => ¬ Fits (pairs ++ [((key, value), delta)]) (key, value))
      (state.applyDelta kind key value delta) fun result =>
        Fits (pairs ++ [((key, value), delta)]) (key, value) ∧
          Applied kind state (pairs ++ [((key, value), delta)]) key result := by
  unfold applyDelta
  dsimp only
  split
  · next outside =>
    rw [represents.newWeight] at outside
    exact fun fits => outside ⟨by have := fits.1; omega, fits.2⟩
  next inside =>
  rw [not_not, represents.newWeight] at inside
  split
  · next negative =>
    rw [represents.newWeight] at negative
    exact fun fits => absurd fits.1 (by omega)
  · next nonneg =>
    rw [represents.newWeight] at nonneg
    have fits : Fits (pairs ++ [((key, value), delta)]) (key, value) :=
      ⟨by omega, inside.2⟩
    have next := represents.reweighted key value delta fits.1
    refine Meets.ok ⟨fits, rfl, (next.cached key).symm, fun query ne => ?_, next⟩
    rw [lookup_recached, if_neg ne]

end MinMaxState

/-! ## Admissible inputs -/

/-- After every row, every (group, value) has a running weight that the operator accepts. -/
def Admissible (pairs : Pairs) : Prop :=
  Running (fun total => 0 ≤ total ∧ total < 2 ^ 63) pairs

instance (pairs : Pairs) : Decidable (Admissible pairs) :=
  inferInstanceAs (Decidable (Running _ pairs))

namespace MinMaxOp

/-! ## What a row emits -/

def outputPair : Row → Option (Int64 × Int64)
  | [some (.int64 key), some (.int64 extremum)] => some (key, extremum)
  | _ => none

theorem outputPair_eq_some_iff {row : Row} : outputPair row = some (key, extremum) ↔
      [some (.int64 key), some (.int64 extremum)] = row := by
  constructor
  · intro found
    unfold outputPair at found
    split at found
    · cases found
      rfl
    · cases found
  · rintro rfl
    rfl

def cacheWeight (cache : HashMap Int64 Int64) (row : Row) : Int :=
  match outputPair row with
  | some (key, extremum) => if cache.lookup key = some extremum then 1 else 0
  | none => 0

/-- A row emits the change of its group's extremum. -/
theorem weight_emitted {cache next : HashMap Int64 Int64}
    (others : ∀ query, query ≠ key → next.lookup query = cache.lookup query) (row : Row) :
    weight (denote (emitted key (cache.lookup key) (next.lookup key))) row =
      cacheWeight next row - cacheWeight cache row := by
  let render (extremum : Int64) : Row := [some (.int64 key), some (.int64 extremum)]
  have replaced : weight (denote (emitted key (cache.lookup key) (next.lookup key))) row =
      (if (next.lookup key).map render = some row then 1 else 0) -
        if (cache.lookup key).map render = some row then 1 else 0 := by
    unfold emitted
    split
    · rw [← weight_replace render]
      simp [denote, render, Function.comp_def]
    · next same =>
      rw [not_not.mp same]
      simp [denote]
  have apart (elsewhere : ∀ extremum, outputPair row ≠ some (key, extremum)) (slot : Option Int64) :
      slot.map render ≠ some row := by
    intro isRow
    obtain ⟨extremum, _, same⟩ := Option.map_eq_some_iff.mp isRow
    exact elsewhere extremum (outputPair_eq_some_iff.mpr same)
  rw [replaced]
  unfold cacheWeight
  cases found : outputPair row with
  | none => rw [if_neg (apart (by simp [found]) _), if_neg (apart (by simp [found]) _)]
  | some pair =>
    obtain ⟨query, extremum⟩ := pair
    by_cases same : query = key
    · subst same
      obtain rfl := outputPair_eq_some_iff.mp found
      simp [render]
    · rw [if_neg (apart (by simp [found, same]) _), if_neg (apart (by simp [found, same]) _)]
      simp [others query same]

theorem conforms_emitted (key : Int64) (old new : Option Int64) :
    ∀ row ∈ emitted key old new, Conforms outputSchema row.1 := by
  have conforms : ∀ extremum : Int64,
      Conforms outputSchema [Cell.ofInt64 key, Cell.ofInt64 extremum] := by
    simp [Conforms, outputSchema, Field.Admits, Cell.ofInt64, Value.dataType]
  intro row mem
  unfold emitted at mem
  split at mem
  · rcases mem_append.mp mem with retracted | inserted
    · obtain ⟨extremum, _, rfl⟩ := mem_map.mp retracted
      exact conforms extremum
    · obtain ⟨extremum, _, rfl⟩ := mem_map.mp inserted
      exact conforms extremum
  · cases mem

/-! ## Reading the rows -/

def rowPair : Row → Option (Int64 × Int64)
  | some (.int64 key) :: some (.int64 value) :: _ => some (key, value)
  | _ => none

def pairsOf (rows : List (Row × Int)) : Pairs :=
  rows.filterMap fun row => (rowPair row.1).map fun pair => (pair, row.2)

@[simp] theorem pairsOf_append (left right : List (Row × Int)) :
    pairsOf (left ++ right) = pairsOf left ++ pairsOf right :=
  filterMap_append

def NonNull (batch : ArrowZSet) : Prop := ∀ row ∈ batch.valued, (rowPair row.1).isSome = true

instance (batch : ArrowZSet) : Decidable (NonNull batch) :=
  inferInstanceAs (Decidable (∀ row ∈ batch.valued, _))

private theorem get_eq_int64 {cell : Cell} (denotes : cell.get = some (.int64 value)) :
    cell.raw = .int64 value := by
  unfold Cell.get at denotes
  split at denotes
  · exact Option.some.inj denotes
  · cases denotes

theorem rowPair_eq_some {cells : List Cell}
    (found : rowPair (cells.map Cell.get) = some (key, value)) :
    ∃ keyCell valueCell rest, cells = keyCell :: valueCell :: rest ∧
      keyCell.raw = .int64 key ∧ valueCell.raw = .int64 value := by
  unfold rowPair at found
  split at found
  · next same =>
    cases found
    obtain ⟨keyCell, _, rfl, isKey, same⟩ := map_eq_cons_iff.mp same
    obtain ⟨valueCell, rest, rfl, isValue, _⟩ := map_eq_cons_iff.mp same
    exact ⟨keyCell, valueCell, rest, rfl, get_eq_int64 isKey, get_eq_int64 isValue⟩
  · cases found

theorem readers_of_nonNull (env : MinMaxEnv) {batch : ArrowZSet} (nonNull : NonNull batch)
    (nonempty : batch.rows ≠ []) : ∃ read, readers env batch.fields = .ok read ∧
      ∀ row ∈ batch.rows, rowPair (row.1.map Cell.get) = some (read row.1) := by
  have pairs : ∀ row ∈ batch.rows, ∃ key value,
      rowPair (row.1.map Cell.get) = some (key, value) := by
    intro row mem
    have isPair := nonNull (row.1.map Cell.get, row.2) (mem_map_of_mem mem)
    obtain ⟨⟨key, value⟩, found⟩ := Option.isSome_iff_exists.mp isPair
    exact ⟨key, value, found⟩
  -- The types of the two columns are those of any row's slots.
  obtain ⟨first, mem⟩ := exists_mem_of_ne_nil _ nonempty
  obtain ⟨key, value, found⟩ := pairs first mem
  obtain ⟨keyCell, valueCell, rest, cells, keyRaw, valueRaw⟩ := rowPair_eq_some found
  have conforms := batch.conforms first mem
  rw [cells] at conforms
  obtain ⟨keyField, fields, keyAdmits, conformsRest, isFields⟩ :=
    forall₂_cons_right_iff.mp conforms
  obtain ⟨valueField, others, valueAdmits, _, rfl⟩ := forall₂_cons_right_iff.mp conformsRest
  have keyType : keyField.dataType = .int64 := by rw [← keyAdmits.1, keyRaw]; rfl
  have valueType : valueField.dataType = .int64 := by rw [← valueAdmits.1, valueRaw]; rfl
  refine ⟨fun cells => (int64Raw (cells.getD 0 (Cell.ofInt64? none)),
    int64Raw (cells.getD 1 (Cell.ofInt64? none))), ?_, ?_⟩
  · rw [isFields]
    simp only [readers, keyType, valueType, valueReader]
    rfl
  · intro row inside
    obtain ⟨rowKey, rowValue, rowFound⟩ := pairs row inside
    obtain ⟨_, _, _, rowCells, rowKeyRaw, rowValueRaw⟩ := rowPair_eq_some rowFound
    rw [rowFound, rowCells]
    simp [int64Raw, Cell.int64?, rowKeyRaw, rowValueRaw]

/-! ## One batch -/

section Batch

variable {op : MinMaxOp} {base : Pairs} {start : MinMaxState}

structure LoopInvariant (op : MinMaxOp) (base : Pairs) (start : MinMaxState)
    (done : List (List Cell × Int)) (current : List (List Cell × Int) × MinMaxState) : Prop where
  represents : current.2.Represents op.kind (base ++ pairsOf (denote done))
  admissible : Admissible (base ++ pairsOf (denote done))
  conforms : ∀ row ∈ current.1, Conforms outputSchema row.1
  law : ∀ row, weight (denote current.1) row =
    cacheWeight current.2.extremumCache row - cacheWeight start.extremumCache row

theorem processRow_spec {read : List Cell → Int64 × Int64} {done : List (List Cell × Int)}
    {row : List Cell × Int} {current : List (List Cell × Int) × MinMaxState}
    (reads : rowPair (row.1.map Cell.get) = some (read row.1))
    (inv : op.LoopInvariant base start done current) :
    Meets (fun _ => ¬ Admissible (base ++ pairsOf (denote (done ++ [row]))))
      (op.processRow read current row) (op.LoopInvariant base start (done ++ [row])) := by
  have grows : base ++ pairsOf (denote (done ++ [row])) =
      base ++ pairsOf (denote done) ++ [(((read row.1).1, (read row.1).2), row.2)] := by
    simp [pairsOf, denote, reads]
  rw [grows]
  refine Meets.bind ((inv.represents.applyDelta_spec (read row.1).1 (read row.1).2
    row.2).permit fun _ unfit admissible => unfit (last admissible)) ?_
  rintro ⟨⟨old, new⟩, next⟩ ⟨fits, isOld, isNew, others, represents⟩
  rw [isOld, isNew]
  refine Meets.pure ⟨?_, ?_, ?_, ?_⟩
  · rw [grows]
    exact represents
  · rw [grows]
    exact append_single inv.admissible fits
  · exact forall_mem_append.mpr ⟨inv.conforms, conforms_emitted _ _ _⟩
  · intro output
    rw [denote_append, weight_append, inv.law, weight_emitted others]
    ring

/-- A batch without NULLs succeeds exactly when it keeps the input admissible, and emits the change
of the cached extrema. -/
theorem processDelta_spec (env : MinMaxEnv) {batch : ArrowZSet} (nonNull : NonNull batch)
    (represents : start.Represents op.kind base) (admissible : Admissible base) :
    Meets (fun _ => ¬ Admissible (base ++ pairsOf batch.valued)) (op.processDelta env start batch)
      fun result => result.2.Represents op.kind (base ++ pairsOf batch.valued) ∧
        Admissible (base ++ pairsOf batch.valued) ∧ ∀ row, weight result.1.valued row =
          cacheWeight result.2.extremumCache row - cacheWeight start.extremumCache row := by
  unfold processDelta
  split
  · next noRows =>
    have hollow : batch.valued = [] := by
      rw [valued, isEmpty_iff.mp noRows]
      rfl
    rw [hollow]
    refine Meets.ok ⟨?_, ?_, fun row => ?_⟩
    · simpa [pairsOf] using represents
    · simpa [pairsOf] using admissible
    · simp [valued, denote]
  · next someRows =>
    obtain ⟨read, found, reads⟩ := readers_of_nonNull env nonNull
      (fun noRows => someRows (isEmpty_iff.mpr noRows))
    rw [found]
    have loop : Meets (fun _ => ¬ Admissible (base ++ pairsOf batch.valued))
        (batch.rows.foldlM (op.processRow read) ([], start))
        (op.LoopInvariant base start batch.rows) := by
      refine Meets.foldlM (op.LoopInvariant base start) ?_ ?_
      · refine ⟨?_, ?_, fun row mem => ?_, fun row => ?_⟩
        · simpa [pairsOf, denote] using represents
        · simpa [pairsOf, denote] using admissible
        · cases mem
        · simp [denote]
      · intro done row rest current split inv
        refine (processRow_spec (reads row (by simp [split])) inv).permit ?_
        intro _ unfit admissible
        refine unfit (of_append (pairsOf (denote rest)) ?_)
        rw [valued, split, append_cons, denote_append, pairsOf_append,
          ← append_assoc] at admissible
        exact admissible
    refine Meets.bind (show Meets _ (Exec.within start (.ok read)) (· = read) from rfl) ?_
    rintro _ rfl
    refine loop.bind ?_
    rintro ⟨out, next⟩ inv
    have built : ∃ output, buildOutput out = .ok output ∧ output.rows = out := by
      unfold buildOutput
      split
      · next noRows => exact ⟨_, rfl, (isEmpty_iff.mp noRows).symm⟩
      · exact ⟨_, tryNew_of_conforms (by simp [outputSchema]) inv.conforms, rfl⟩
    obtain ⟨output, isOutput, rows⟩ := built
    rw [isOutput]
    refine Meets.ok ⟨inv.represents, inv.admissible, fun row => ?_⟩
    rw [valued, rows]
    exact inv.law row

end Batch

/-! ## Runs -/

/-- The weight of a row in the batch result: one row per group with a value of positive weight,
which carries the group's true extremum. -/
def extremumWeight (kind : MinMaxKind) (pairs : Pairs) (row : Row) : Int :=
  match outputPair row with
  | some (key, extremum) => if IsExtremum kind pairs key extremum then 1 else 0
  | none => 0

theorem cacheWeight_eq_extremumWeight {state : MinMaxState} {pairs : Pairs}
    (represents : state.Represents kind pairs) (row : Row) :
    cacheWeight state.extremumCache row = extremumWeight kind pairs row := by
  unfold cacheWeight extremumWeight
  split
  · rw [represents.cached]
    exact if_congr represents.trueExtremum_eq_some_iff rfl rfl
  · rfl

structure RunInvariant (op : MinMaxOp) (batches outputs : List ArrowZSet) (state : MinMaxState) :
    Prop where
  represents : state.Represents op.kind (pairsOf (batches.flatMap ArrowZSet.valued))
  admissible : Admissible (pairsOf (batches.flatMap ArrowZSet.valued))
  law : ∀ row, weight (outputs.flatMap ArrowZSet.valued) row = cacheWeight state.extremumCache row

theorem runInvariant_run (op : MinMaxOp) (env : MinMaxEnv) {batches : List ArrowZSet}
    (nonNull : ∀ batch ∈ batches, NonNull batch) :
    Meets (fun _ => ¬ Admissible (pairsOf (batches.flatMap valued)))
      (Loop.run (op.processDelta env) .new batches)
      fun result => op.RunInvariant batches result.1 result.2 := by
  refine Meets.run op.RunInvariant ?_ ?_
  · refine ⟨MinMaxState.represents_new op.kind, ?_, fun row => ?_⟩
    · exact nil
    · rw [cacheWeight_eq_extremumWeight (MinMaxState.represents_new op.kind)]
      unfold extremumWeight
      split
      · rfl
      · rfl
  · intro done batch rest emitted state split inv
    have grows : pairsOf ((done ++ [batch]).flatMap valued) =
        pairsOf (done.flatMap valued) ++ pairsOf batch.valued := by
      simp [pairsOf]
    refine ((processDelta_spec env (nonNull batch (by simp [split])) inv.represents
      inv.admissible).permit ?_).weaken ?_
    · intro _ unfit admissible
      refine unfit (of_append (pairsOf (rest.flatMap valued)) ?_)
      simpa [split, Admissible] using admissible
    · rintro result ⟨represents, admissible, law⟩
      refine ⟨by rw [grows]; exact represents, by rw [grows]; exact admissible, fun row => ?_⟩
      rw [flatMap_append, weight_append, inv.law, flatMap_singleton, law]
      ring

/-- MIN/MAX batch equivalence: over rows without NULLs, a run succeeds exactly when after every row
each (group, value) has a running weight in the accepted range, and then the emitted rows sum to
one row of weight one per non-empty group, carrying the true extremum. -/
theorem processDelta_extremum (op : MinMaxOp) (env : MinMaxEnv) (batches : List ArrowZSet)
    (nonNull : ∀ batch ∈ batches, NonNull batch) :
    (Admissible (pairsOf (batches.flatMap ArrowZSet.valued)) ↔
      ∃ outputs final, Loop.run (op.processDelta env) .new batches = .ok (outputs, final)) ∧
    ∀ outputs final, Loop.run (op.processDelta env) .new batches = .ok (outputs, final) →
      ∀ row, weight (outputs.flatMap ArrowZSet.valued) row =
        extremumWeight op.kind (pairsOf (batches.flatMap ArrowZSet.valued)) row := by
  have run := runInvariant_run op env nonNull
  refine ⟨⟨fun admissible => ?_, ?_⟩, ?_⟩
  · obtain ⟨⟨outputs, final⟩, ran, _⟩ := run.elim fun _ _ unfit => unfit admissible
    exact ⟨outputs, final, ran⟩
  · rintro ⟨outputs, final, ran⟩
    exact (run.post ran).admissible
  · intro outputs final ran row
    have invariant := run.post ran
    rw [invariant.law, cacheWeight_eq_extremumWeight invariant.represents]

/-! ## A run -/

def sampleEnv : MinMaxEnv := ⟨fun _ => none⟩

/-- A duplicate value, a retraction of the minimum, and a group that vanishes. -/
def sampleBatches : List ArrowZSet :=
  [.ofPairs [((some 1, some 5), 2), ((some 1, some 3), 1), ((some 2, some 7), 1)],
    .ofPairs [((some 1, some 3), -1), ((some 2, some 7), -1), ((some 1, some 9), 1)]]

theorem processDelta_extremum_sample : ∃ outputs final,
    Loop.run (MinMaxOp.processDelta ⟨7, .min⟩ sampleEnv) .new sampleBatches = .ok (outputs, final) ∧
      ∀ row, weight (outputs.flatMap ArrowZSet.valued) row =
        extremumWeight .min (pairsOf (sampleBatches.flatMap ArrowZSet.valued)) row := by
  have law := processDelta_extremum ⟨7, .min⟩ sampleEnv sampleBatches (by decide +kernel)
  obtain ⟨outputs, final, ran⟩ := law.1.mp (by decide +kernel)
  exact ⟨outputs, final, ran, law.2 outputs final ran⟩

/-- A batch that retracts a value before it inserts it has accumulated weight zero everywhere, and
is refused. -/
theorem retraction_before_insertion_refused :
    NonNegative (pairsOf
      (ArrowZSet.ofPairs [((some 1, some 5), -1), ((some 1, some 5), 1)]).valued) ∧
      ∃ state, MinMaxOp.processDelta ⟨7, .min⟩ sampleEnv .new
        (.ofPairs [((some 1, some 5), -1), ((some 1, some 5), 1)]) =
          .error (.err (.minMaxRetractionUnderflow 1 5), state) :=
  ⟨by decide +kernel, _, rfl⟩

end MinMaxOp

end RockStream
