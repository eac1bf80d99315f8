import RockStream.Lib.BTreeMap
import RockStream.RawRows

/-!
Contract: weighted relations of the recursive operator (`recursion.rs`).

A relation is an ordered map from rows of integers to weights. The evaluator adds positive
weights only, so what matters of a relation is the set of its rows.

Owns:
- `Relation` and the functions on it that the operator uses;
- `rows`, the rows of positive weight, and how each function acts on them.

Does not own: plans.
-/

namespace RockStream

open Lib Loop Lib.Weighted

variable {relation next start final dst src merged : Relation} {row : List Int64}

/-- `Relation`: rows with their weights, in the order of the rows. -/
abbrev Relation := BTreeMap (List Int64) Int

namespace Relation

def weightOf (relation : Relation) (row : List Int64) : Int := (relation[row]?).getD 0

/-- `*relation.entry(row).or_insert(0) += weight`. -/
def addRow (relation : Relation) (row : List Int64) (weight : Int) : Exec Relation := do
  let total ← addI64 (relation.weightOf row) weight
  pure (relation.insert row total)

/-- The same, where a row whose weight becomes zero is removed. -/
def addNet (relation : Relation) (row : List Int64) (weight : Int) : Exec Relation := do
  let total ← addI64 (relation.weightOf row) weight
  pure (if total = 0 then relation.erase row else relation.insert row total)

def positiveRelation (relation : Relation) : Relation :=
  relation.filter fun _ weight => 0 < weight

def distinctRelation (relation : Relation) : Relation :=
  relation.filterMap fun _ weight => if 0 < weight then some 1 else none

/-- `relation_difference`: the rows of the first that the second lacks, once each. -/
def relationDifference (left right : Relation) : Relation :=
  left.filterMap fun row weight => if 0 < weight ∧ ¬ 0 < right.weightOf row then some 1 else none

def mergeRelation (dst src : Relation) : Exec Relation :=
  src.toList.foldlM (fun dst entry => dst.addNet entry.1 entry.2) dst

/-- `diff_relations`: the changed weights. A row that both relations hold is visited twice. -/
def diffRelations (old new : Relation) : Exec Relation :=
  (old.keys ++ new.keys).foldlM (fun (diff : Relation) row => do
    let change ← subI64 (new.weightOf row) (old.weightOf row)
    pure (if change ≠ 0 then diff.insert row change else diff)) ∅

/-! ## Weights -/

@[simp] theorem weightOf_empty (row : List Int64) : weightOf ∅ row = 0 := rfl

theorem weightOf_insert (relation : Relation) (row query : List Int64) (weight : Int) :
    weightOf (relation.insert row weight) query =
      if query = row then weight else relation.weightOf query := by
  unfold weightOf
  rw [BTreeMap.get_insert]
  split <;> rfl

theorem weightOf_erase (relation : Relation) (row query : List Int64) :
    weightOf (relation.erase row) query = if query = row then 0 else relation.weightOf query := by
  unfold weightOf
  rw [BTreeMap.get_erase]
  split <;> rfl

theorem addRow_eq_ok {weight : Int} (added : relation.addRow row weight = .ok next) :
    next = relation.insert row (relation.weightOf row + weight) := by
  obtain ⟨total, isTotal, ended⟩ := bind_eq_ok.mp added
  cases ended
  rw [(addI64_eq_ok.mp isTotal).2]

/-- Adding to a weight, whether or not a zero is kept. -/
theorem weightOf_addNet {weight : Int}
    (added : relation.addNet row weight = .ok next) (query : List Int64) :
    next.weightOf query = relation.weightOf query + if query = row then weight else 0 := by
  obtain ⟨total, isTotal, ended⟩ := bind_eq_ok.mp added
  cases ended
  rw [(addI64_eq_ok.mp isTotal).2]
  by_cases vanishes : relation.weightOf row + weight = 0
  · rw [if_pos vanishes, weightOf_erase]
    split
    · next here => rw [here, vanishes]
    · rw [add_zero]
  · rw [if_neg vanishes, weightOf_insert]
    split
    · next here => rw [here]
    · rw [add_zero]

/-! ## The rows of a relation -/

def rows (relation : Relation) : Set (List Int64) := {row | 0 < relation.weightOf row}

def Positive (relation : Relation) : Prop :=
  ∀ (row : List Int64) (weight : Int), relation[row]? = some weight → 0 < weight

theorem mem_rows : row ∈ relation.rows ↔ 0 < relation.weightOf row := Iff.rfl

@[simp] theorem rows_empty : rows ∅ = ∅ :=
  Set.eq_empty_of_forall_notMem fun _ => lt_irrefl (0 : Int)

theorem positive_empty : Positive ∅ := by
  intro row weight found
  cases found

section

variable (positive : relation.Positive)
include positive

theorem Positive.mem_rows_iff : row ∈ relation.rows ↔ ∃ weight, relation[row]? = some weight := by
  unfold rows weightOf
  rw [Set.mem_ofPred_eq]
  cases found : relation[row]? with
  | none => simp
  | some weight => simpa using positive row weight found

theorem Positive.weightOf_nonneg (row : List Int64) : 0 ≤ relation.weightOf row := by
  unfold weightOf
  cases found : relation[row]? with
  | none => exact le_rfl
  | some weight => exact (positive row weight found).le

theorem Positive.exists_mem_toList :
    (∃ weight, (row, weight) ∈ relation.toList) ↔ row ∈ relation.rows := by
  rw [positive.mem_rows_iff]
  exact exists_congr fun weight => Std.TreeMap.mem_toList_iff_getElem?_eq_some

theorem Positive.pos_of_mem_toList {entry : List Int64 × Int} (mem : entry ∈ relation.toList) :
    0 < entry.2 :=
  positive entry.1 entry.2 (Std.TreeMap.mem_toList_iff_getElem?_eq_some.mp mem)

end

theorem rows_of_isEmpty (hollow : relation.isEmpty = true) : relation.rows = ∅ := by
  refine Set.eq_empty_of_forall_notMem fun row mem => ?_
  rw [mem_rows, weightOf, BTreeMap.isEmpty_iff.mp hollow row] at mem
  exact lt_irrefl 0 mem

theorem addRow_spec (positive : relation.Positive)
    {weight : Int} (adds : 0 < weight) (added : relation.addRow row weight = .ok next) :
    next.Positive ∧ next.rows = insert row relation.rows := by
  have grows : 0 < relation.weightOf row + weight := by
    have := positive.weightOf_nonneg row
    omega
  rw [addRow_eq_ok added]
  refine ⟨fun query other found => ?_, Set.ext fun query => ?_⟩
  · rw [BTreeMap.get_insert] at found
    split at found
    · cases found
      exact grows
    · exact positive query other found
  · rw [mem_rows, weightOf_insert, Set.mem_insert_iff, mem_rows]
    split
    · next here => exact ⟨fun _ => Or.inl here, fun _ => grows⟩
    · next elsewhere => exact ⟨.inr, fun either => either.resolve_left elsewhere⟩

theorem addRow_of_addNet (positive : relation.Positive) {weight : Int} (adds : 0 < weight)
    (added : relation.addNet row weight = .ok next) : relation.addRow row weight = .ok next := by
  obtain ⟨total, isTotal, ended⟩ := bind_eq_ok.mp added
  cases ended
  have grows : total ≠ 0 := by
    have := positive.weightOf_nonneg row
    rw [(addI64_eq_ok.mp isTotal).2]
    omega
  rw [if_neg grows, addRow, isTotal]
  rfl

theorem foldlM_rows {ι : Type} {body : Relation → ι → Exec Relation}
    (emits : ι → Set (List Int64)) {items : List ι}
    (each : ∀ relation item next, item ∈ items → relation.Positive →
      body relation item = .ok next → next.Positive ∧ next.rows = relation.rows ∪ emits item)
    (positive : start.Positive) (ran : items.foldlM body start = .ok final) :
    final.Positive ∧ final.rows = start.rows ∪ {row | ∃ item ∈ items, row ∈ emits item} := by
  induction items generalizing start with
  | nil =>
    cases ran
    exact ⟨positive, by simp⟩
  | cons item items ih =>
    obtain ⟨next, stepped, rest⟩ := bind_eq_ok.mp ran
    obtain ⟨nextPositive, nextRows⟩ := each start item next (by simp) positive stepped
    obtain ⟨finalPositive, finalRows⟩ := ih
      (fun relation other after mem => each relation other after (by simp [mem]))
      nextPositive rest
    refine ⟨finalPositive, finalRows.trans ?_⟩
    rw [nextRows]
    ext row
    simp [or_assoc]

/-- A loop over the entries of a relation, by what it adds for each row. -/
theorem Positive.foldlM_rows {body : Relation → List Int64 × Int → Exec Relation}
    (positive : relation.Positive) (emits : List Int64 → Set (List Int64))
    (each : ∀ out entry next, 0 < entry.2 → out.Positive → body out entry = .ok next →
      next.Positive ∧ next.rows = out.rows ∪ emits entry.1)
    (startPositive : start.Positive) (ran : relation.toList.foldlM body start = .ok final) :
    final.Positive ∧
      final.rows = start.rows ∪ {row | ∃ source ∈ relation.rows, row ∈ emits source} := by
  obtain ⟨finalPositive, finalRows⟩ := Relation.foldlM_rows (fun entry => emits entry.1)
    (fun out entry next mem => each out entry next (positive.pos_of_mem_toList mem))
    startPositive ran
  refine ⟨finalPositive, finalRows.trans (congrArg _ (Set.ext fun row => ?_))⟩
  simp [← positive.exists_mem_toList]

/-! ## Positive rows and distinct rows -/

theorem weightOf_positiveRelation (relation : Relation) (row : List Int64) :
    (positiveRelation relation)[row]? = (relation[row]?).filter (0 < ·) := by
  unfold positiveRelation
  rw [Std.TreeMap.getElem?_filter']

theorem positive_positiveRelation (relation : Relation) : (positiveRelation relation).Positive := by
  intro row weight found
  rw [weightOf_positiveRelation] at found
  simpa using (Option.filter_eq_some_iff.mp found).2

@[simp] theorem rows_positiveRelation (relation : Relation) :
    (positiveRelation relation).rows = relation.rows := by
  ext row
  rw [mem_rows, mem_rows, weightOf, weightOf, weightOf_positiveRelation]
  cases found : relation[row]? with
  | none => rfl
  | some weight =>
    by_cases isPositive : 0 < weight <;> simp [Option.filter, isPositive]

def IsSet (relation : Relation) : Prop :=
  ∀ (row : List Int64) (weight : Int), relation[row]? = some weight → weight = 1

theorem IsSet.positive (isSet : relation.IsSet) : relation.Positive := by
  intro row weight found
  rw [isSet row weight found]
  exact one_pos

open Classical in
theorem IsSet.weightOf_eq (isSet : relation.IsSet) (row : List Int64) :
    relation.weightOf row = if row ∈ relation.rows then 1 else 0 := by
  rw [mem_rows, weightOf]
  cases found : relation[row]? with
  | none => simp
  | some weight => simp [isSet row weight found]

open Classical in
theorem relationDifference_get (left right : Relation) (row : List Int64) :
    (relationDifference left right)[row]? =
      if row ∈ left.rows ∧ row ∉ right.rows then some 1 else none := by
  have isWeight : left.weightOf row = (left[row]?).getD 0 := rfl
  rw [mem_rows, mem_rows, relationDifference, Std.TreeMap.getElem?_filterMap', isWeight]
  cases left[row]? with
  | none => simp
  | some weight =>
    by_cases fresh : 0 < weight ∧ ¬ 0 < right.weightOf row
    · simp [fresh]
    · rw [if_neg (by simpa using fresh)]
      simp only [Option.bind_some, if_neg fresh]

theorem isSet_relationDifference (left right : Relation) :
    (relationDifference left right).IsSet := by
  intro row weight found
  rw [relationDifference_get] at found
  split at found
  · exact (Option.some.inj found).symm
  · cases found

@[simp] theorem rows_relationDifference (left right : Relation) :
    (relationDifference left right).rows = left.rows \ right.rows := by
  ext row
  rw [(isSet_relationDifference left right).positive.mem_rows_iff, relationDifference_get]
  by_cases fresh : row ∈ left.rows ∧ row ∉ right.rows
  · simp [fresh]
  · simp [fresh]

theorem distinctRelation_eq (relation : Relation) :
    distinctRelation relation = relationDifference relation ∅ := by
  simp [distinctRelation, relationDifference]

theorem isSet_distinctRelation (relation : Relation) : (distinctRelation relation).IsSet := by
  rw [distinctRelation_eq]
  exact isSet_relationDifference relation ∅

@[simp] theorem rows_distinctRelation (relation : Relation) :
    (distinctRelation relation).rows = relation.rows := by
  rw [distinctRelation_eq, rows_relationDifference, rows_empty, Set.sdiff_empty]

/-! ## Sums and differences -/

theorem weight_toList (relation : Relation) (row : List Int64) :
    weight relation.toList row = relation.weightOf row := by
  have distinct : (relation.toList.map Prod.fst).Nodup := by
    rw [Std.TreeMap.map_fst_toList_eq_keys]
    exact Std.TreeMap.nodup_keys
  unfold weightOf
  cases found : relation[row]? with
  | none =>
    refine weight_eq_zero_of_absent fun entry mem same => ?_
    have stored := Std.TreeMap.mem_toList_iff_getElem?_eq_some.mp mem
    rw [same, found] at stored
    cases stored
  | some amount =>
    exact weight_of_nodup distinct (Std.TreeMap.mem_toList_iff_getElem?_eq_some.mpr found)

theorem weightOf_foldlM_addNet {items : List (List Int64 × Int)}
    (ran : items.foldlM (fun relation entry => relation.addNet entry.1 entry.2) start = .ok final)
    (row : List Int64) : final.weightOf row = start.weightOf row + weight items row := by
  induction items generalizing start with
  | nil =>
    cases ran
    exact (add_zero _).symm
  | cons entry items ih =>
    obtain ⟨next, added, rest⟩ := bind_eq_ok.mp ran
    rw [ih rest, weightOf_addNet added, weight_cons]
    by_cases here : row = entry.1
    · rw [if_pos here, if_pos here.symm]
      ring
    · rw [if_neg here, if_neg (Ne.symm here)]
      ring

theorem mergeRelation_spec (dstPositive : dst.Positive)
    (srcPositive : src.Positive) (ran : mergeRelation dst src = .ok merged) :
    merged.Positive ∧ merged.rows = dst.rows ∪ src.rows := by
  have collected := srcPositive.foldlM_rows (fun row => {row})
    (fun relation entry next adds positive added =>
      (addRow_spec positive adds (addRow_of_addNet positive adds added)).imp_right
        fun same => same.trans (Set.union_singleton).symm) dstPositive ran
  simpa using collected

theorem isSet_mergeRelation (dstSet : dst.IsSet) (srcSet : src.IsSet)
    (apart : ∀ row ∈ src.rows, row ∉ dst.rows) (ran : mergeRelation dst src = .ok merged) :
    merged.IsSet := by
  have positive := (mergeRelation_spec dstSet.positive srcSet.positive ran).1
  intro row amount found
  have total := weightOf_foldlM_addNet ran row
  rw [weight_toList, dstSet.weightOf_eq, srcSet.weightOf_eq] at total
  have isAmount : merged.weightOf row = amount := by
    rw [weightOf, found]
    rfl
  have isPositive := positive row amount found
  rw [isAmount] at total
  by_cases inSrc : row ∈ src.rows
  · rw [if_neg (apart row inSrc), if_pos inSrc] at total
    exact total
  · split at total
    · exact total
    · omega

theorem weightOf_diffRelations {old new diff : Relation} (ran : diffRelations old new = .ok diff)
    (row : List Int64) : diff.weightOf row = new.weightOf row - old.weightOf row := by
  have visited := foldlM_invariant
    (fun (done : List (List Int64)) (diff : Relation) => ∀ row, diff.weightOf row =
      if row ∈ done then new.weightOf row - old.weightOf row else 0)
    (by
      intro done diff key next shown stepped query
      obtain ⟨change, isChange, ended⟩ := bind_eq_ok.mp stepped
      cases ended
      have isChange := (subI64_eq_ok.mp isChange).2
      have known := shown query
      by_cases here : query = key
      · subst here
        rw [if_pos (List.mem_append_right done (List.mem_singleton_self query)), ← isChange]
        split
        · rw [weightOf_insert, if_pos rfl]
        · next zero =>
          have zero := not_not.mp zero
          rw [known, ← isChange, zero, ite_self]
      · have sameRows : query ∈ done ++ [key] ↔ query ∈ done := by simp [here]
        rw [if_congr sameRows rfl rfl, ← known]
        split
        · rw [weightOf_insert, if_neg here]
        · rfl)
    (fun _ => by simp) ran row
  rw [visited]
  split
  · rfl
  · next unvisited =>
    have absent : ∀ relation : Relation, row ∉ relation.keys → relation.weightOf row = 0 := by
      intro relation missing
      rw [weightOf, Std.TreeMap.getElem?_eq_none fun mem =>
        missing (Std.TreeMap.mem_keys.mpr mem)]
      rfl
    rw [List.mem_append, not_or] at unvisited
    rw [absent old unvisited.1, absent new unvisited.2, sub_zero]

end Relation

end RockStream
