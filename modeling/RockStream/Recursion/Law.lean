import RockStream.Recursion.Meaning

/-!
Contract: the recursive operator shows the least fixed point.

The loop stays below the least fixed point by monotonicity and stops at a set that the step
does not leave, so where it stops it has the least fixed point. Epochs emit differences of
fixed points, which add up to the last one, for deletions as well as insertions.

The two source names are chosen from the plans: a step that reads no source of its own is
taken to recur through the input, which is then bound to nothing.

Owns:
- `consequence`, the map whose least fixed point a recursive query means;
- `Recursive`, the plans whose sources the operator tells apart;
- the law over whole runs of rows without NULL.

Does not own: persistence.
-/

namespace RockStream

open Lib Loop Lib.Weighted Sql RockStream.Relation List OrderHom

variable {inputRelation : Relation} {schema : List Field} {width : Nat} {output delta : ArrowZSet}
  {eval : RowEval} {input recursive : String} {op : RecursionOp}

/-! ## What a recursive query means -/

/-- `X ↦ base(I) ∪ step(I, X)`. -/
def consequence (eval : RowEval) (base step : PlanNode) (recursive : String)
    (input : Set (List Int64)) : Set (List Int64) →o Set (List Int64) where
  toFun current := meaning eval (fun _ => input) base ∪
    meaning eval (fun name => if name = recursive then current else input) step
  monotone' := by
    intro small large within
    refine Set.union_subset_union_right _ (meaning_mono eval fun name _ => ?_)
    split
    · exact within
    · exact Set.Subset.rfl

/-- A base that reads the input, and a step that reads the input and the recursive source. -/
structure Recursive (input recursive : String) (base step : PlanNode) : Prop where
  baseSelects : Selects base = true
  stepSelects : Selects step = true
  baseReads : ∀ name ∈ collectSourceNames base, name = input
  stepReads : ∀ name ∈ collectSourceNames step, name = input ∨ name = recursive
  recurs : recursive ∈ collectSourceNames step
  apart : input ≠ recursive

theorem collectSourceNames_ne_nil (plan : PlanNode) : collectSourceNames plan ≠ [] := by
  induction plan <;> simp_all [collectSourceNames]

section Names

variable {base step : PlanNode}

theorem Recursive.chooseRecursive_eq (isRecursive : Recursive input recursive base step) :
    chooseRecursive base step = recursive := by
  obtain ⟨first, names, isBase⟩ := exists_cons_of_ne_nil (collectSourceNames_ne_nil base)
  have inBase : input ∈ collectSourceNames base := by
    rw [← isRecursive.baseReads first (by simp [isBase]), isBase]
    exact mem_cons_self
  have found : (collectSourceNames step).find?
      (fun name => !(collectSourceNames base).contains name) = some recursive := by
    cases search : (collectSourceNames step).find?
        (fun name => !(collectSourceNames base).contains name) with
    | none =>
      have inside := find?_eq_none.mp search recursive isRecursive.recurs
      simp only [Bool.not_eq_true', Bool.not_eq_false, contains_iff_mem] at inside
      exact absurd (isRecursive.baseReads recursive inside) isRecursive.apart.symm
    | some name =>
      have outside := find?_some search
      rcases isRecursive.stepReads name (mem_of_find?_eq_some search) with rfl | rfl
      · simp [inBase] at outside
      · rfl
  rw [chooseRecursive, found]
  rfl

theorem Recursive.chooseInput_eq (isRecursive : Recursive input recursive base step) :
    chooseInput base (chooseRecursive base step) = input := by
  obtain ⟨first, names, isBase⟩ := exists_cons_of_ne_nil (collectSourceNames_ne_nil base)
  have isInput : first = input := isRecursive.baseReads first (by simp [isBase])
  rw [isRecursive.chooseRecursive_eq, chooseInput, isBase, find?_cons, isInput]
  simp [isRecursive.apart]

end Names

/-! ## The fixed point -/

section FixedPoint

variable (isRecursive : Recursive input recursive op.base op.step)
  (isRecursiveName : op.recursiveSourceName = recursive) (isInputName : op.inputSourceName = input)

include isRecursive isRecursiveName isInputName

/-- The bound relations mean what the sources of a recursive query mean. -/
theorem RecursionOp.meaning_step (inputRelation current : Relation) :
    meaning eval (fun name => (op.bindings inputRelation current name).rows) op.step =
      meaning eval (fun name => if name = recursive then current.rows else inputRelation.rows)
        op.step := by
  refine meaning_congr eval fun name mem => ?_
  unfold bindings
  rw [isRecursiveName, isInputName]
  rcases isRecursive.stepReads name mem with rfl | rfl
  · rw [if_neg isRecursive.apart, if_pos rfl, if_neg isRecursive.apart]
  · rw [if_pos rfl, if_pos rfl]

theorem RecursionOp.meaning_base (inputRelation : Relation) :
    meaning eval (fun name => (op.bindings inputRelation ∅ name).rows) op.base =
      meaning eval (fun _ => inputRelation.rows) op.base := by
  refine meaning_congr eval fun name mem => ?_
  unfold bindings
  rw [isRecursiveName, isInputName, isRecursive.baseReads name mem, if_neg isRecursive.apart,
    if_pos rfl]

omit isRecursive isRecursiveName isInputName in
theorem RecursionOp.positive_bindings {current : Relation}
    (inputPositive : inputRelation.Positive) (currentPositive : current.Positive) (name : String) :
    (op.bindings inputRelation current name).Positive := by
  unfold bindings
  split
  · exact currentPositive
  · split
    · exact inputPositive
    · exact positive_empty

/-- A loop that starts between the base and the least fixed point ends in it. -/
theorem RecursionOp.fixedPointLoop_spec
    (inputPositive : inputRelation.Positive) {remaining iteration : Nat}
    {current result : FixedPointResult} (isSet : current.outputRelation.IsSet)
    (aboveBase : meaning eval (fun _ => inputRelation.rows) op.base ⊆ current.outputRelation.rows)
    (below : current.outputRelation.rows ⊆
      (consequence eval op.base op.step recursive inputRelation.rows).lfp)
    (looped : op.fixedPointLoop eval inputRelation remaining iteration current = .ok result) :
    result.outputRelation.IsSet ∧ result.outputRelation.rows =
      (consequence eval op.base op.step recursive inputRelation.rows).lfp := by
  induction remaining generalizing iteration current with
  | zero => cases looped
  | succ remaining ih =>
    obtain ⟨stepped, evals, looped⟩ := bind_eq_ok.mp looped
    have isStepped := (evalPlan_spec (op.positive_bindings inputPositive isSet.positive)
      isRecursive.stepSelects evals).2
    rw [meaning_step isRecursive isRecursiveName isInputName] at isStepped
    have deltaRows := rows_relationDifference (distinctRelation stepped) current.outputRelation
    rw [rows_distinctRelation, isStepped] at deltaRows
    dsimp only at looped
    split at looped
    · next hollow =>
      cases looped
      rw [rows_of_isEmpty hollow] at deltaRows
      -- no new row: the step stays inside
      have inside := Set.sdiff_eq_empty.mp deltaRows.symm
      exact ⟨isSet, le_antisymm below (lfp_le _ (Set.union_subset aboveBase inside))⟩
    · obtain ⟨merged, isMerged, looped⟩ := bind_eq_ok.mp looped
      split at looped
      · cases looped
      · have deltaSet := isSet_relationDifference (distinctRelation stepped) current.outputRelation
        have mergedRows := (mergeRelation_spec isSet.positive deltaSet.positive isMerged).2
        rw [deltaRows] at mergedRows
        refine ih (isSet_mergeRelation isSet deltaSet (fun row mem => ?_)
          isMerged) ?_ ?_ looped
        · rw [deltaRows] at mem
          exact mem.2
        · exact aboveBase.trans (by rw [mergedRows]; exact Set.subset_union_left)
        · rw [mergedRows]
          refine Set.union_subset below fun row mem => ?_
          -- a row of the step is one of the step at the least fixed point
          rw [← map_lfp]
          refine .inr (meaning_mono eval (fun name _ => ?_) mem.1)
          split
          · exact below
          · exact Set.Subset.rfl

theorem RecursionOp.computeFixedPoint_spec {fixed : FixedPointResult}
    (computed : op.computeFixedPoint eval inputRelation = .ok fixed) :
    fixed.outputRelation.IsSet ∧ fixed.outputRelation.rows =
      (consequence eval op.base op.step recursive inputRelation.rows).lfp := by
  obtain ⟨based, evals, looped⟩ := bind_eq_ok.mp computed
  have isBased := (evalPlan_spec (op.positive_bindings (positive_positiveRelation inputRelation)
    positive_empty) isRecursive.baseSelects evals).2
  rw [meaning_base isRecursive isRecursiveName isInputName] at isBased
  have reached := fixedPointLoop_spec isRecursive isRecursiveName isInputName
    (positive_positiveRelation inputRelation) (isSet_distinctRelation based)
    (by rw [rows_distinctRelation, isBased])
    (by
      rw [rows_distinctRelation, isBased, ← map_lfp]
      exact Set.subset_union_left) looped
  rw [rows_positiveRelation] at reached
  exact reached

end FixedPoint

/-! ## Epochs -/

theorem buildZset_spec (shape : Int64Shape schema width)
    {relation : Relation} (wide : ∀ row, relation.weightOf row ≠ 0 → row.length = width)
    (built : buildZset schema relation = .ok output) :
    Shows output.valued (fun _ => 0) relation.weightOf := by
  have sameWeights : ∀ row, weight (relation.toList.filter fun entry => entry.2 ≠ 0) row =
      relation.weightOf row := fun row => by rw [weight_filter_ne_zero, weight_toList]
  have entryWide : ∀ entry ∈ relation.toList.filter fun entry => entry.2 ≠ 0,
      entry.1.length = schema.length := by
    intro entry mem
    obtain ⟨inList, nonzero⟩ := mem_filter.mp mem
    rw [shape.length]
    refine wide entry.1 ?_
    rw [weightOf, Std.TreeMap.mem_toList_iff_getElem?_eq_some.mp inList]
    simpa using nonzero
  unfold buildZset at built
  dsimp only at built
  generalize relation.toList.filter (fun entry => entry.2 ≠ 0) = entries
    at built sameWeights entryWide
  have isFull : entries.filter (fun entry => schema.length ≤ entry.1.length) = entries :=
    filter_eq_self.mpr fun entry mem => by simp [entryWide entry mem]
  rw [isFull] at built
  split at built
  · next hollow =>
    have noRows := ArrowZSet.valued_empty built
    rw [isEmpty_iff.mp hollow] at sameWeights
    refine ⟨fun vals => ?_, fun row _ => by rw [noRows]; rfl⟩
    rw [noRows, ← sameWeights]
    rfl
  · split at built
    · cases built
    · obtain ⟨batch, isBatch, ended⟩ := bind_eq_ok.mp built
      rw [if_neg (not_not.mpr rfl)] at ended
      cases ended
      have valued : output.valued = entries.map fun entry => (valuesRow entry.1, entry.2) := by
        rw [ArrowZSet.valued, (ArrowZSet.tryNew_eq_ok isBatch).2, denote, map_map]
        refine map_congr_left fun entry mem => ?_
        show (((entry.1.take schema.length).map Cell.ofInt64).map Cell.get, entry.2) = _
        rw [take_of_length_le (entryWide entry mem).le, get_ofInt64]
      rw [valued]
      exact (ShowsValues.map entries).shows fun vals => (sameWeights vals).trans (sub_zero _).symm

theorem RecursionOp.processEpoch_eq_ok {op : RecursionOp} {state next : RecursionState}
    (processed : op.processEpoch eval state delta = .ok (output, next)) :
    applyDeltaToRelation state.inputRelation delta = .ok next.inputRelation ∧
      op.computeFixedPoint eval next.inputRelation = .ok ⟨next.outputRelation, next.iterationRows⟩ ∧
      ∃ diff, diffRelations state.outputRelation next.outputRelation = .ok diff ∧
        buildZset op.schema diff = .ok output := by
  unfold processEpoch at processed
  split at processed
  · cases processed
  · obtain ⟨inputRelation, applied, processed⟩ := bind_eq_ok.mp processed
    obtain ⟨fixed, computed, processed⟩ := bind_eq_ok.mp processed
    split at processed
    · cases processed
    · obtain ⟨diff, isDiff, processed⟩ := bind_eq_ok.mp processed
      obtain ⟨built, isBuilt, ended⟩ := bind_eq_ok.mp processed
      cases ended
      exact ⟨Exec.within_eq_ok.mp applied, Exec.within_eq_ok.mp computed, diff,
        Exec.within_eq_ok.mp isDiff, Exec.within_eq_ok.mp isBuilt⟩

/-! ## Runs -/

def deltaRows (deltas : List ArrowZSet) : List (List Int64 × Int) :=
  int64Rows (deltas.flatMap ArrowZSet.valued)

theorem deltaRows_append_single (deltas : List ArrowZSet) (delta : ArrowZSet) :
    deltaRows (deltas ++ [delta]) = deltaRows deltas ++ int64Rows delta.valued := by
  simp [deltaRows]

/-- The rows of positive accumulated weight. -/
def presentRows (deltas : List ArrowZSet) : Set (List Int64) :=
  {vals | 0 < weight (deltaRows deltas) vals}

theorem length_of_mem_presentRows {deltas : List ArrowZSet}
    (epochs : ∀ delta ∈ deltas, Int64Epoch width delta) {vals : List Int64}
    (present : vals ∈ presentRows deltas) : vals.length = width := by
  obtain ⟨row, mem, rfl⟩ := exists_of_weight_ne_zero (ne_of_gt present)
  unfold deltaRows int64Rows at mem
  rw [filterMap_flatMap] at mem
  obtain ⟨delta, isDelta, inDelta⟩ := mem_flatMap.mp mem
  have inRows : row ∈ int64Rows delta.valued := inDelta
  rw [(epochs delta isDelta).int64Rows_eq] at inRows
  obtain ⟨source, isSource, rfl⟩ := mem_map.mp inRows
  rw [extractRowVals, length_map]
  exact (epochs delta isDelta).length_eq isSource

structure TypedQuery (input recursive : String) (base step : PlanNode) (schema : List Field)
    (inputWidth width : Nat) : Prop extends Recursive input recursive base step where
  shape : Int64Shape schema width
  baseTyped : arity (fun _ => inputWidth) base = some width
  stepTyped : arity (fun name => if name = recursive then width else inputWidth) step = some width

theorem TypedQuery.length_of_mem_lfp {input recursive : String} {base step : PlanNode}
    {inputWidth : Nat} (query : TypedQuery input recursive base step schema inputWidth width)
    {rows : Set (List Int64)} (typed : ∀ row ∈ rows, row.length = inputWidth) {row : List Int64}
    (mem : row ∈ (consequence eval base step recursive rows).lfp) : row.length = width := by
  have within : (consequence eval base step recursive rows).lfp ≤ {row | row.length = width} := by
    refine lfp_le _ (Set.union_subset (fun row inBase => ?_) fun row inStep => ?_)
    · exact length_of_mem_meaning (fun _ => typed) query.baseTyped inBase
    · refine length_of_mem_meaning (fun name row inSet => ?_) query.stepTyped inStep
      by_cases recurs : name = recursive
      · rw [if_pos recurs] at inSet ⊢
        exact inSet
      · rw [if_neg recurs] at inSet ⊢
        exact typed row inSet
  exact within mem

section Run

variable {inputWidth : Nat}

/-- The operator after epochs: its input holds their weights, its output is the least fixed point,
and the outputs have shown it. -/
structure ShowsFixedPoint (eval : RowEval) (recursive : String) (op : RecursionOp)
    (deltas outputs : List ArrowZSet) (state : RecursionState) : Prop where
  input : ∀ vals, state.inputRelation.weightOf vals = weight (deltaRows deltas) vals
  isSet : state.outputRelation.IsSet
  output : state.outputRelation.rows =
    (consequence eval op.base op.step recursive (presentRows deltas)).lfp
  shown : Shows (outputs.flatMap ArrowZSet.valued) (fun _ => 0) state.outputRelation.weightOf

theorem showsFixedPoint_new : ShowsFixedPoint eval recursive op [] [] .new where
  input := fun _ => rfl
  isSet := by
    intro row weight found
    cases found
  output := by
    have noRows : presentRows [] = ∅ := rows_empty
    have nothing : (consequence eval op.base op.step recursive (presentRows [])).lfp ≤ ∅ := by
      refine lfp_le _ (Set.union_subset ?_ ?_)
      · rw [meaning_of_empty eval fun _ => noRows]
      · rw [meaning_of_empty eval fun name => by rw [noRows]; split <;> rfl]
    rw [Set.subset_empty_iff.mp nothing]
    exact rows_empty
  shown := ⟨fun _ => rfl, fun _ _ => rfl⟩

theorem ShowsFixedPoint.step
    (query : TypedQuery input recursive op.base op.step op.schema inputWidth width)
    (isRecursiveName : op.recursiveSourceName = recursive)
    (isInputName : op.inputSourceName = input)
    {deltas outputs : List ArrowZSet} {state next : RecursionState}
    (epochs : ∀ other ∈ deltas ++ [delta], Int64Epoch inputWidth other)
    (shows : ShowsFixedPoint eval recursive op deltas outputs state)
    (processed : op.processEpoch eval state delta = .ok (output, next)) :
    ShowsFixedPoint eval recursive op (deltas ++ [delta]) (outputs ++ [output]) next := by
  obtain ⟨applied, computed, diff, isDiff, built⟩ := RecursionOp.processEpoch_eq_ok processed
  have inputWeights : ∀ vals, next.inputRelation.weightOf vals =
      weight (deltaRows (deltas ++ [delta])) vals := by
    intro vals
    rw [weightOf_foldlM_addNet applied, shows.input, deltaRows_append_single, weight_append,
      (epochs delta (by simp)).int64Rows_eq]
  have inputRows : next.inputRelation.rows = presentRows (deltas ++ [delta]) :=
    Set.ext fun vals => by rw [mem_rows, inputWeights]; rfl
  obtain ⟨isSet, isFixed⟩ := RecursionOp.computeFixedPoint_spec query.toRecursive isRecursiveName
    isInputName computed
  rw [inputRows] at isFixed
  have changes := weightOf_diffRelations isDiff
  -- a row that changes was derived before or is derived now
  have wide : ∀ row, diff.weightOf row ≠ 0 → row.length = width := by
    intro row changed
    rw [changes, isSet.weightOf_eq, shows.isSet.weightOf_eq, isFixed, shows.output] at changed
    by_cases isNew : row ∈ (consequence eval op.base op.step recursive
        (presentRows (deltas ++ [delta]))).lfp
    · exact query.length_of_mem_lfp (fun _ => length_of_mem_presentRows epochs) isNew
    · by_cases wasOld : row ∈ (consequence eval op.base op.step recursive (presentRows deltas)).lfp
      · exact query.length_of_mem_lfp (fun _ => length_of_mem_presentRows
          fun other mem => epochs other (by simp [mem])) wasOld
      · rw [if_neg isNew, if_neg wasOld] at changed
        exact absurd rfl changed
  have emitted := buildZset_spec query.shape wide built
  refine ⟨inputWeights, isSet, isFixed, ?_⟩
  rw [flatMap_append, flatMap_singleton]
  refine shows.shown.append ⟨fun vals => ?_, emitted.2⟩
  rw [emitted.1, changes, sub_zero]

end Run

/-- The accumulated outputs are the least fixed point of the recursive query over the rows of
positive accumulated weight, each row once. -/
theorem RecursionOp.emits_least_fixed_point (eval : RowEval) {schema : List Field}
    {base step : PlanNode} {input recursive : String} {inputWidth width : Nat}
    (query : TypedQuery input recursive base step schema inputWidth width) {maxIterations : Nat}
    {monotone : Bool} {stateLimit : Nat} {deltas : List ArrowZSet}
    (epochs : ∀ delta ∈ deltas, Int64Epoch inputWidth delta) {outputs : List ArrowZSet}
    {final : RecursionState}
    (ran : Loop.run ((newWithStateLimit schema base step maxIterations monotone
      stateLimit).processEpoch eval) .new deltas = .ok (outputs, final)) (row : Row) :
    weight (outputs.flatMap ArrowZSet.valued) row =
      Set.indicator (valuesRow '' (consequence eval base step recursive (presentRows deltas)).lfp)
        1 row := by
  have shows := run_invariant
    (fun deltas outputs state => (∀ delta ∈ deltas, Int64Epoch inputWidth delta) →
      ShowsFixedPoint eval recursive (newWithStateLimit schema base step maxIterations monotone
        stateLimit) deltas outputs state)
    (fun done emitted state delta output next held processed epochs =>
      (held fun other member => epochs other (by simp [member])).step query
        query.chooseRecursive_eq query.chooseInput_eq epochs processed)
    (fun _ => showsFixedPoint_new) ran epochs
  by_cases isValues : row ∈ Set.range valuesRow
  · obtain ⟨vals, rfl⟩ := isValues
    rw [shows.shown.1, sub_zero, shows.isSet.weightOf_eq, shows.output,
      Set.indicator_image fun _ _ => valuesRow_injective]
    rfl
  · rw [shows.shown.2 row fun vals same => isValues ⟨vals, same.symm⟩,
      Set.indicator_of_notMem fun inImage => isValues (Set.image_subset_range _ _ inImage)]

/-! ## Sample queries -/

def columnEval : RowEval where
  evalI64
    | .column index, row =>
      match row[index]? with
      | some value => .ok value
      | none => .error (.err (.columnOutOfBounds index row.length))
    | _, _ => .error (.err (.unimplemented "expression" 1014))
  evalBool := fun _ _ => .error (.err (.unimplemented "expression" 1014))

def edgeFields : List Field := [⟨"src", .int64, false⟩, ⟨"dst", .int64, false⟩]

/-- Reachability: a reached pair goes on along an edge. -/
def reachStep : PlanNode :=
  .project (.innerJoin (.source "reach") (.source "edges") [1] [0] 1 2 {}) [.column 0, .column 3]

/-- Two edges, and one of them deleted. -/
def reachDeltas : List ArrowZSet :=
  [.ofPairs [((some 1, some 2), 1), ((some 2, some 3), 2)], .ofPairs [((some 2, some 3), -2)]]

theorem reachQuery : TypedQuery "edges" "reach" (.source "edges") reachStep edgeFields 2 2 where
  baseSelects := rfl
  stepSelects := rfl
  baseReads := by decide
  stepReads := by decide
  recurs := by decide
  apart := by decide
  shape := ⟨rfl, by decide⟩
  baseTyped := rfl
  stepTyped := by decide

theorem epochs_reachDeltas : ∀ delta ∈ reachDeltas, Int64Epoch 2 delta := by
  intro delta mem
  simp only [reachDeltas, mem_cons, not_mem_nil, or_false] at mem
  rcases mem with rfl | rfl <;> exact ⟨⟨rfl, by decide⟩, by decide, by decide⟩

theorem RecursionOp.emits_least_fixed_point_sample : ∃ outputs final,
    Loop.run ((newWithStateLimit edgeFields (.source "edges") reachStep 16 false
      100).processEpoch columnEval) .new reachDeltas = .ok (outputs, final) ∧
      weight (outputs.flatMap ArrowZSet.valued) [some (.int64 1), some (.int64 2)] = 1 ∧
      ∀ row, weight (outputs.flatMap ArrowZSet.valued) row =
        Set.indicator (valuesRow '' (consequence columnEval (.source "edges") reachStep "reach"
          (presentRows reachDeltas)).lfp) 1 row := by
  exact exists_ok_and (by decide +kernel) fun _ _ ran =>
    emits_least_fixed_point columnEval reachQuery epochs_reachDeltas ran

/-- A step that reads the input only is taken to recur through it, and then nothing is derived; and
a NULL is shown as the value beneath it. -/
theorem RecursionOp.step_without_recursive_source : (∃ outputs final,
      Loop.run ((new edgeFields (.source "edges") (.source "edges") 16 false).processEpoch
        columnEval)
        .new [.ofPairs [((some 1, some 2), 1)]] = .ok (outputs, final) ∧
      weight (outputs.flatMap ArrowZSet.valued) [some (.int64 1), some (.int64 2)] = 0 ∧
      [1, 2] ∈ (consequence columnEval (.source "edges") (.source "edges") "reach"
        (presentRows [.ofPairs [((some 1, some 2), 1)]])).lfp) ∧ ∃ outputs final,
      Loop.run ((new edgeFields (.source "edges") reachStep 16 false).processEpoch columnEval)
        .new [.ofPairs [((none, some 2), 1)]] = .ok (outputs, final) ∧
      weight (outputs.flatMap ArrowZSet.valued) [none, some (.int64 2)] = 0 ∧
      weight (outputs.flatMap ArrowZSet.valued) [some (.int64 0), some (.int64 2)] = 1 := by
  constructor
  · refine exists_ok_and (by decide +kernel) fun _ _ _ => ?_
    have present : [1, 2] ∈ presentRows [.ofPairs [((some 1, some 2), 1)]] := by
      show 0 < weight (deltaRows [.ofPairs [((some 1, some 2), 1)]]) [1, 2]
      decide +kernel
    rw [← map_lfp]
    exact Or.inl present
  · exact exists_ok (by decide +kernel)

end RockStream
