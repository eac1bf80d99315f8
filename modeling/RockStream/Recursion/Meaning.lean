import RockStream.Recursion.Op

/-!
Contract: what a plan of the recursive operator means.

A plan of sources, filters, projections, unions, distincts and inner joins maps sets of rows
to a set of rows, and a larger set to a larger one. The rows of an evaluated plan are the set
that the plan means, whatever the weights.

Owns:
- `Selects`, the plans that the meaning covers, and `meaning`;
- the agreement of `evalPlan` with the meaning, and its monotonicity;
- `arity`, the width of the rows of a plan.

Does not own: the iteration.
-/

namespace RockStream

open Lib Loop Sql RockStream.Relation List

variable {sets : String → Set (List Int64)} {plan : PlanNode} {relation out : Relation}

/-- The plans of sources, filters, projections, unions, distincts and inner joins. -/
def Selects : PlanNode → Bool
  | .source _ => true
  | .filter input _ => Selects input
  | .project input _ => Selects input
  | .union left right => Selects left && Selects right
  | .distinct input _ => Selects input
  | .innerJoin left right _ _ _ _ _ => Selects left && Selects right
  | _ => false

section Meaning

variable (eval : RowEval)

/-- The set of rows that a plan selects from the rows of its sources. -/
def meaning (sets : String → Set (List Int64)) : PlanNode → Set (List Int64)
  | .source name => sets name
  | .filter input predicate => {row ∈ meaning sets input | eval.evalBool predicate row = .ok true}
  | .project input columns =>
    {row | ∃ source ∈ meaning sets input,
      (columns.mapM fun expr => eval.evalI64 expr source) = .ok row}
  | .union left right => meaning sets left ∪ meaning sets right
  | .distinct input _ => meaning sets input
  | .innerJoin left right leftKeys rightKeys _ _ _ =>
    {row | ∃ leftRow ∈ meaning sets left, ∃ rightRow ∈ meaning sets right,
      keysMatch leftRow rightRow (leftKeys.zip rightKeys) = .ok true ∧ leftRow ++ rightRow = row}
  | _ => ∅

/-- More rows in the sources give more rows. -/
theorem meaning_mono {small large : String → Set (List Int64)}
    (within : ∀ name ∈ collectSourceNames plan, small name ⊆ large name) :
    meaning eval small plan ⊆ meaning eval large plan := by
  induction plan with
  | source name => exact within name (by simp [collectSourceNames])
  | filter input predicate ih =>
    rintro row ⟨mem, kept⟩
    exact ⟨ih within mem, kept⟩
  | project input columns ih =>
    rintro row ⟨source, mem, projected⟩
    exact ⟨source, ih within mem, projected⟩
  | union left right leftHyp rightHyp =>
    exact Set.union_subset_union (leftHyp fun name mem => within name (mem_append_left _ mem))
      (rightHyp fun name mem => within name (mem_append_right _ mem))
  | distinct input arrId ih => exact ih within
  | innerJoin left right leftKeys rightKeys leftArrId rightArrId semantics leftHyp
      rightHyp =>
      rintro row ⟨leftRow, inLeft, rightRow, inRight, joined⟩
      exact ⟨leftRow, leftHyp (fun name mem => within name (mem_append_left _ mem)) inLeft,
        rightRow, rightHyp (fun name mem => within name (mem_append_right _ mem)) inRight, joined⟩
  | _ => exact Set.Subset.rfl

theorem meaning_of_empty (hollow : ∀ name, sets name = ∅)
    (plan : PlanNode) : meaning eval sets plan = ∅ := by
  induction plan with
  | source name => exact hollow name
  | filter input predicate ih => simp [meaning, ih]
  | project input columns ih => simp [meaning, ih]
  | union left right leftHyp rightHyp =>
    simp [meaning, leftHyp, rightHyp]
  | distinct input arrId ih => exact ih
  | innerJoin left right leftKeys rightKeys leftArrId rightArrId semantics leftHyp
      rightHyp => simp [meaning, leftHyp]
  | _ => rfl

theorem meaning_congr {first second : String → Set (List Int64)}
    (agree : ∀ name ∈ collectSourceNames plan, first name = second name) :
    meaning eval first plan = meaning eval second plan :=
  Set.Subset.antisymm (meaning_mono eval fun name mem => (agree name mem).subset)
    (meaning_mono eval fun name mem => (agree name mem).superset)

variable {eval}

/-! ## Evaluation -/

section

variable (positive : relation.Positive)
include positive

theorem relationToBatch_eq_ok {batch : List (List Int64 × Int)}
    (built : relationToBatch relation = .ok batch) : batch = relation.toList := by
  have kept : relation.toList.filter (fun entry => 0 < entry.2) = relation.toList :=
    filter_eq_self.mpr fun entry mem => by simpa using positive.pos_of_mem_toList mem
  unfold relationToBatch at built
  dsimp only at built
  rw [kept] at built
  split at built
  · cases built
  · split at built
    · next hollow =>
      cases built
      exact (isEmpty_iff.mp hollow).symm
    · split at built
      · cases built
      · cases built
        rfl

theorem filter_spec {predicate : Sql.Expr} {mask : List Bool}
    (masked : (relation.toList.mapM fun entry => eval.evalBool predicate entry.1) = .ok mask)
    (filtered : (relation.toList.zip mask).foldlM (fun (out : Relation) item =>
      if item.2 then out.addRow item.1.1 item.1.2 else pure out) ∅ = .ok out) : out.Positive ∧
      out.rows = {row ∈ relation.rows | eval.evalBool predicate row = .ok true} := by
  obtain ⟨sameLength, evals⟩ := forall₂_iff_zip.mp (mapM_eq_ok.mp masked)
  have collected := foldlM_rows (fun item : (List Int64 × Int) × Bool =>
    {row | item.2 = true ∧ row = item.1.1}) (fun relation item next mem isPositive added => by
      obtain ⟨entry, keep⟩ := item
      have inRelation := (of_mem_zip mem).1
      cases keep with
      | false =>
        cases added
        exact ⟨isPositive, by simp⟩
      | true =>
        obtain ⟨nextPositive, nextRows⟩ :=
          addRow_spec isPositive (positive.pos_of_mem_toList inRelation) added
        exact ⟨nextPositive, nextRows.trans (by ext row; simp)⟩) positive_empty filtered
  refine ⟨collected.1, collected.2.trans (Set.ext fun row => ?_)⟩
  rw [rows_empty, Set.empty_union]
  constructor
  · rintro ⟨⟨entry, keep⟩, mem, rfl, rfl⟩
    exact ⟨positive.exists_mem_toList.mp ⟨entry.2, (of_mem_zip mem).1⟩, evals mem⟩
  · rintro ⟨inRelation, kept⟩
    obtain ⟨weight, mem⟩ := positive.exists_mem_toList.mpr inRelation
    rw [← map_fst_zip sameLength.le] at mem
    obtain ⟨⟨entry, keep⟩, isItem, rfl⟩ := mem_map.mp mem
    have same := evals isItem
    rw [kept] at same
    exact ⟨_, isItem, (Except.ok.inj same).symm, rfl⟩

theorem project_spec {columns : List Sql.Expr}
    (projected : relation.toList.foldlM (fun (out : Relation) entry => do
      let row ← columns.mapM fun expr => eval.evalI64 expr entry.1
      out.addRow row entry.2) ∅ = .ok out) :
    out.Positive ∧ out.rows = {row | ∃ source ∈ relation.rows,
      (columns.mapM fun expr => eval.evalI64 expr source) = .ok row} := by
  have collected := positive.foldlM_rows (fun source =>
    {row | (columns.mapM fun expr => eval.evalI64 expr source) = .ok row})
    (fun relation entry next adds isPositive added => by
      obtain ⟨row, isRow, added⟩ := bind_eq_ok.mp added
      obtain ⟨nextPositive, nextRows⟩ := addRow_spec isPositive adds added
      refine ⟨nextPositive, nextRows.trans (Set.ext fun other => ?_)⟩
      simp [isRow, eq_comm]) positive_empty projected
  rw [rows_empty, Set.empty_union] at collected
  exact collected

end

theorem innerJoin_spec {left right : Relation} (leftPositive : left.Positive)
    (rightPositive : right.Positive) {keys : List (Nat × Nat)}
    (joined : left.toList.foldlM (fun out leftEntry =>
      right.toList.foldlM (fun (out : Relation) rightEntry => do
        if ← keysMatch leftEntry.1 rightEntry.1 keys then
          let weight ← mulI64 leftEntry.2 rightEntry.2
          out.addRow (leftEntry.1 ++ rightEntry.1) weight
        else pure out) out) ∅ = .ok out) :
    out.Positive ∧ out.rows = {row | ∃ leftRow ∈ left.rows, ∃ rightRow ∈ right.rows,
      keysMatch leftRow rightRow keys = .ok true ∧ leftRow ++ rightRow = row} := by
  have collected := leftPositive.foldlM_rows (fun leftRow =>
    {row | ∃ rightRow ∈ right.rows, keysMatch leftRow rightRow keys = .ok true ∧
      leftRow ++ rightRow = row})
    (fun relation leftEntry next leftAdds isPositive looped => by
      refine rightPositive.foldlM_rows (fun rightRow =>
        {row | keysMatch leftEntry.1 rightRow keys = .ok true ∧ leftEntry.1 ++ rightRow = row})
        (fun relation rightEntry next rightAdds isPositive added => ?_) isPositive looped
      obtain ⟨isMatch, matched, added⟩ := bind_eq_ok.mp added
      cases isMatch with
      | false =>
        cases added
        exact ⟨isPositive, by simp [matched]⟩
      | true =>
        obtain ⟨weight, isWeight, added⟩ := bind_eq_ok.mp added
        have grows : 0 < weight := by
          rw [(mulI64_eq_ok.mp isWeight).2]
          exact mul_pos leftAdds rightAdds
        obtain ⟨nextPositive, nextRows⟩ := addRow_spec isPositive grows added
        refine ⟨nextPositive, nextRows.trans (Set.ext fun row => ?_)⟩
        simp [matched, eq_comm]) positive_empty joined
  rw [rows_empty, Set.empty_union] at collected
  exact collected

theorem evalPlan_spec {bindings : String → Relation} (positive : ∀ name, (bindings name).Positive)
    (selects : Selects plan = true) {result : Relation}
    (evals : evalPlan eval bindings plan = .ok result) :
    result.Positive ∧ result.rows = meaning eval (fun name => (bindings name).rows) plan := by
  induction plan generalizing result with
  | source name =>
    cases evals
    exact ⟨positive name, rfl⟩
  | filter input predicate ih =>
    obtain ⟨relation, inputEvaluated, evals⟩ := bind_eq_ok.mp evals
    obtain ⟨isPositive, isMeaning⟩ := ih selects inputEvaluated
    rw [meaning, ← isMeaning]
    split at evals
    · next hollow =>
      cases evals
      exact ⟨positive_empty, by simp [rows_of_isEmpty hollow]⟩
    · obtain ⟨batch, built, evals⟩ := bind_eq_ok.mp evals
      obtain ⟨mask, masked, filtered⟩ := bind_eq_ok.mp evals
      rw [relationToBatch_eq_ok isPositive built] at masked filtered
      exact filter_spec isPositive masked filtered
  | project input columns ih =>
    obtain ⟨relation, inputEvaluated, evals⟩ := bind_eq_ok.mp evals
    obtain ⟨isPositive, isMeaning⟩ := ih selects inputEvaluated
    rw [meaning, ← isMeaning]
    split at evals
    · next hollow =>
      cases evals
      exact ⟨positive_empty, by simp [rows_of_isEmpty hollow]⟩
    · obtain ⟨batch, built, evals⟩ := bind_eq_ok.mp evals
      obtain ⟨_, _, projected⟩ := bind_eq_ok.mp evals
      rw [relationToBatch_eq_ok isPositive built] at projected
      exact project_spec isPositive projected
  | union left right leftHyp rightHyp =>
    obtain ⟨leftRelation, leftEvaluated, evals⟩ := bind_eq_ok.mp evals
    obtain ⟨rightRelation, rightEvaluated, merged⟩ := bind_eq_ok.mp evals
    obtain ⟨leftSelects, rightSelects⟩ := Bool.and_eq_true_iff.mp selects
    obtain ⟨leftPositive, leftMeaning⟩ := leftHyp leftSelects leftEvaluated
    obtain ⟨rightPositive, rightMeaning⟩ := rightHyp rightSelects rightEvaluated
    rw [meaning, ← leftMeaning, ← rightMeaning]
    exact mergeRelation_spec leftPositive rightPositive merged
  | distinct input arrId ih =>
    obtain ⟨relation, inputEvaluated, evals⟩ := bind_eq_ok.mp evals
    cases evals
    rw [rows_distinctRelation]
    exact ⟨(isSet_distinctRelation relation).positive,
      (ih selects inputEvaluated).2⟩
  | innerJoin left right leftKeys rightKeys leftArrId rightArrId semantics leftHyp
      rightHyp =>
      obtain ⟨leftRelation, leftEvaluated, evals⟩ := bind_eq_ok.mp evals
      obtain ⟨rightRelation, rightEvaluated, joined⟩ := bind_eq_ok.mp evals
      obtain ⟨leftSelects, rightSelects⟩ := Bool.and_eq_true_iff.mp selects
      have collected := innerJoin_spec (positive_positiveRelation leftRelation)
        (positive_positiveRelation rightRelation) joined
      rw [rows_positiveRelation, rows_positiveRelation,
        (leftHyp leftSelects leftEvaluated).2,
        (rightHyp rightSelects rightEvaluated).2] at collected
      exact collected
  | _ => cases selects

/-! ## Widths -/

def arity (widths : String → Nat) : PlanNode → Option Nat
  | .source name => some (widths name)
  | .filter input _ => arity widths input
  | .project input columns => (arity widths input).map fun _ => columns.length
  | .union left right => do
    let leftWidth ← arity widths left
    let rightWidth ← arity widths right
    if leftWidth = rightWidth then some leftWidth else none
  | .distinct input _ => arity widths input
  | .innerJoin left right _ _ _ _ _ => do
    let leftWidth ← arity widths left
    let rightWidth ← arity widths right
    some (leftWidth + rightWidth)
  | _ => none

theorem length_of_mem_meaning {widths : String → Nat}
    (typed : ∀ name, ∀ row ∈ sets name, row.length = widths name) {width : Nat}
    (isWidth : arity widths plan = some width) {row : List Int64}
    (mem : row ∈ meaning eval sets plan) : row.length = width := by
  induction plan generalizing width row with
  | source name =>
    cases isWidth
    exact typed name row mem
  | filter input predicate ih => exact ih isWidth mem.1
  | project input columns ih =>
    obtain ⟨_, _, rfl⟩ := Option.map_eq_some_iff.mp isWidth
    obtain ⟨source, _, projected⟩ := mem
    exact (mapM_eq_ok.mp projected).length_eq.symm
  | union left right leftHyp rightHyp =>
    obtain ⟨leftWidth, isLeft, isWidth⟩ := Option.bind_eq_some_iff.mp isWidth
    obtain ⟨rightWidth, isRight, isWidth⟩ := Option.bind_eq_some_iff.mp isWidth
    split at isWidth
    · next same =>
      cases isWidth
      rcases mem with inLeft | inRight
      · exact leftHyp isLeft inLeft
      · rw [same]
        exact rightHyp isRight inRight
    · cases isWidth
  | distinct input arrId ih => exact ih isWidth mem
  | innerJoin left right leftKeys rightKeys leftArrId rightArrId semantics leftHyp
      rightHyp =>
      obtain ⟨leftWidth, isLeft, isWidth⟩ := Option.bind_eq_some_iff.mp isWidth
      obtain ⟨rightWidth, isRight, isWidth⟩ := Option.bind_eq_some_iff.mp isWidth
      cases isWidth
      obtain ⟨leftRow, inLeft, rightRow, inRight, _, rfl⟩ := mem
      rw [length_append, leftHyp isLeft inLeft, rightHyp isRight inRight]
  | _ => cases isWidth

end Meaning

end RockStream
