import RockStream.Sql.Lower
import RockStream.Window.Specification
import RockStream.Distinct.Law

/-!
Contract: GROUP BY without aggregate functions, from SQL to the rows of a view.

Owns:
- `GroupTuples`, what such a query means, and what `compile_plan` makes of the lowered node;
- the theorem: the plan shows the group tuples exactly when it has no time window and the group
  list, evaluated on any row of its NOT NULL integer columns, is the row.

Does not own: the stages of the input.
-/

namespace RockStream.Sql

open Lib Lib.Weighted List

section Groups

variable [ColumnIndex] {fields : List Field} {width : Nat} {schema : DfSchema} {cells : List Cell}

def groupTuple (meaning : Meaning schema) (groupExpr : List DfExpr) (row : Row) : Row :=
  groupExpr.map fun expr => meaning.eval expr row

/-- The emitted rows are the distinct group tuples of the rows of positive weight. -/
def GroupTuples (meaning : Meaning schema) (groupExpr : List DfExpr)
    (input output : List (Row × Int)) : Prop :=
  ∀ tuple, (weight output tuple = 0 ∨ weight output tuple = 1) ∧
    (weight output tuple = 1 ↔
      ∃ row, 0 < weight input row ∧ groupTuple meaning groupExpr row = tuple)

/-- `compile_node` of the two nodes that GROUP BY without aggregates is lowered to, over an input
compiled to a schema. -/
def compileGroups (inSchema : List Field) : PlanNode → Option (Except String DistinctOp)
  | .distinct _ _ => some (if ∀ field ∈ inSchema, field.dataType = .int64 then .ok ⟨inSchema⟩
      else .error ("Distinct over a non-Int64-only input schema (DistinctOp only supports " ++
        "Int64 columns)"))
  | .aggregate _ groupBy [] => some (.error (s!"Aggregate with {groupBy.length} group-by " ++
      "column(s) and 0 aggregate expression(s) (compile_plan requires at least one aggregate " ++
      "expression)"))
  | _ => none

/-- In every run over rows of the input schema the emitted rows are the group tuples. -/
def ShowsGroups (meaning : Meaning schema) (groupExpr : List DfExpr) (inSchema : List Field)
    (op : DistinctOp) : Prop :=
  ∀ batches outputs final, (∀ batch ∈ batches, batch.fields = inSchema) →
    Loop.run op.processDelta .new batches = .ok (outputs, final) →
    GroupTuples meaning groupExpr (batches.flatMap ArrowZSet.valued)
      (outputs.flatMap ArrowZSet.valued)

/-- The plan is compiled, and its operator shows the groups. -/
def ProducesGroups (meaning : Meaning schema) (groupExpr : List DfExpr) (inSchema : List Field)
    (node : PlanNode) : Prop :=
  ∃ op, compileGroups inSchema node = some (.ok op) ∧ ShowsGroups meaning groupExpr inSchema op

def singleBatch (fields : List Field) (cells : List Cell) (conforms : Conforms fields cells) :
    ArrowZSet :=
  ⟨fields, [(cells, 1)], fun row mem => by
    rw [mem_singleton.mp mem]
    exact conforms⟩

omit [ColumnIndex]

theorem extractRowVals_ofInt64 (vals : List Int64) :
    extractRowVals (vals.map Cell.ofInt64) = vals := by
  rw [extractRowVals, map_map]
  exact map_id vals

theorem valid_of_notNull (notNull : ∀ field ∈ fields, field.nullable = false)
    (conforms : Conforms fields cells) : ∀ cell ∈ cells, cell.valid = true := by
  induction conforms with
  | nil => exact nofun
  | @cons field cell fields cells admits _ ih =>
    obtain ⟨own, others⟩ := forall_mem_cons.mp notNull
    refine forall_mem_cons.mpr ⟨?_, ih others⟩
    by_contra invalid
    have nullable := admits.2 (Bool.eq_false_of_not_eq_true invalid)
    rw [own] at nullable
    cases nullable

/-- A row is shown as its raw values. -/
theorem exists_run_single (op : DistinctOp) (shape : Int64Shape op.schema width)
    (columns : 0 < width) (conforms : Conforms op.schema cells) : ∃ outputs final,
      Loop.run op.processDelta .new [singleBatch op.schema cells conforms] = .ok (outputs, final) ∧
        weight (outputs.flatMap ArrowZSet.valued) (valuesRow (extractRowVals cells)) = 1 := by
  have length : (extractRowVals cells).length = width := by
    rw [extractRowVals, length_map, conforms.length_eq, shape.length]
  -- the operator cannot tell the row from the one without NULL
  let valid := singleBatch op.schema _ (conforms_ofInt64 shape length)
  have sameRun : Loop.run op.processDelta .new [singleBatch op.schema cells conforms] =
      Loop.run op.processDelta .new [valid] := by
    have sameRow : ∀ current, DistinctOp.processRow current (cells, 1) =
        DistinctOp.processRow current ((extractRowVals cells).map Cell.ofInt64, 1) := by
      intro current
      unfold DistinctOp.processRow
      rw [extractRowVals_ofInt64]
    have sameDelta : ∀ state, op.processDelta state (singleBatch op.schema cells conforms) =
        op.processDelta state valid := by
      intro state
      unfold DistinctOp.processDelta
      simp only [valid, singleBatch, foldlM_cons, sameRow]
      rfl
    simp only [Loop.run, sameDelta]
  have inputs : ∀ batch ∈ [valid], Int64Shape batch.fields width := by
    intro batch mem
    rw [mem_singleton.mp mem]
    exact shape
  have nullFree : ∀ batch ∈ [valid], DistinctOp.NullFree batch.rows := by
    intro batch mem row inRows _ cell isCell
    rw [mem_singleton.mp mem] at inRows
    rw [mem_singleton.mp inRows] at isCell
    obtain ⟨value, _, rfl⟩ := mem_map.mp isCell
    rfl
  have valued : [valid].flatMap ArrowZSet.valued = [(valuesRow (extractRowVals cells), 1)] := by
    rw [flatMap_singleton, ArrowZSet.valued, denote]
    simp only [valid, singleBatch, map_singleton, get_ofInt64]
  have running : Running InI64 ([valid].flatMap ArrowZSet.valued) := by
    rw [valued]
    refine Running.append_single Running.nil ?_
    simp [InI64]
  obtain ⟨outputs, final, ran⟩ :=
    (DistinctOp.run_succeeds_iff shape columns inputs nullFree).mp running
  refine ⟨outputs, final, sameRun.trans ran, ?_⟩
  rw [DistinctOp.weight_of_run shape columns inputs nullFree ran, valued, if_pos (by simp)]

theorem exists_values_of_weight_pos {batches : List ArrowZSet}
    (inputs : ∀ batch ∈ batches, Int64Shape batch.fields width)
    (nullFree : ∀ batch ∈ batches, DistinctOp.NullFree batch.rows) {row : Row}
    (present : 0 < weight (batches.flatMap ArrowZSet.valued) row) :
    ∃ vals : List Int64, vals.length = width ∧ row = valuesRow vals := by
  obtain ⟨source, mem, rfl, nonzero⟩ := exists_nonzero_of_weight_ne_zero present.ne'
  obtain ⟨batch, isBatch, inBatch⟩ := mem_flatMap.mp mem
  obtain ⟨cells, isCells, rfl⟩ := mem_map.mp inBatch
  have conforms := batch.conforms cells isCells
  have typed := int64Typed_of_conforms (inputs batch isBatch).typed conforms
  refine ⟨extractRowVals cells.1, ?_,
    get_of_valid typed (nullFree batch isBatch cells isCells nonzero)⟩
  rw [extractRowVals, length_map, conforms.length_eq, (inputs batch isBatch).length]

/-- A nullable column holds NULL over any raw value. -/
theorem exists_same_get (shape : Int64Shape fields width) {field : Field} (mem : field ∈ fields)
    (nullable : field.nullable = true) : ∃ left right, Conforms fields left ∧
      Conforms fields right ∧ left.map Cell.get = right.map Cell.get ∧
      extractRowVals left ≠ extractRowVals right := by
  obtain ⟨index, isField⟩ := mem_iff_getElem?.mp mem
  have conforms := conforms_ofInt64 shape (length_replicate (n := width) (a := (0 : Int64)))
  have admits : ∀ value, field.Admits ⟨.int64 value, false⟩ := fun value =>
    ⟨(shape.typed field mem).symm, fun _ => nullable⟩
  refine ⟨_, _, conforms.set isField (admits 0), conforms.set isField (admits 1), ?_, ?_⟩
  · rw [map_set, map_set]
    rfl
  · intro same
    have inside : index < width := shape.length ▸ (List.getElem?_eq_some_iff.mp isField).1
    unfold extractRowVals at same
    rw [map_set, map_set] at same
    have slot := congrArg (·[index]?) same
    rw [getElem?_set_self (by simpa using inside), getElem?_set_self (by simpa using inside)]
      at slot
    cases slot

section Shows

variable [ColumnIndex] {meaning : Meaning schema} {groupExpr : List DfExpr}
  (shape : Int64Shape fields width) (columns : 0 < width)
include shape columns

/-- An operator that shows the groups of every row shows its raw values for them. -/
theorem ShowsGroups.eq_raw (shows : ShowsGroups meaning groupExpr fields ⟨fields⟩)
    (conforms : Conforms fields cells) :
    groupTuple meaning groupExpr (cells.map Cell.get) = valuesRow (extractRowVals cells) := by
  obtain ⟨outputs, final, ran, shown⟩ := exists_run_single ⟨fields⟩ shape columns conforms
  have tuples := shows _ outputs final (fun batch mem => by rw [mem_singleton.mp mem]; rfl) ran
  obtain ⟨row, present, isTuple⟩ := (tuples _).2.mp shown
  have isRow : row = cells.map Cell.get := by
    by_contra differ
    simp [singleBatch, ArrowZSet.valued, denote, Ne.symm differ] at present
  rw [← isRow, isTuple]

theorem showsGroups_of_identity (notNull : ∀ field ∈ fields, field.nullable = false)
    (identity : ∀ vals : List Int64, vals.length = width →
      groupTuple meaning groupExpr (valuesRow vals) = valuesRow vals) :
    ShowsGroups meaning groupExpr fields ⟨fields⟩ := by
  intro batches outputs final sameFields ran tuple
  have inputs : ∀ batch ∈ batches, Int64Shape batch.fields width :=
    fun batch mem => by rw [sameFields batch mem]; exact shape
  have nullFree : ∀ batch ∈ batches, DistinctOp.NullFree batch.rows := by
    intro batch mem row inRows _
    have conforms := batch.conforms row inRows
    rw [sameFields batch mem] at conforms
    exact valid_of_notNull notNull conforms
  have same : ∀ row, 0 < weight (batches.flatMap ArrowZSet.valued) row →
      groupTuple meaning groupExpr row = row := by
    intro row present
    obtain ⟨vals, length, rfl⟩ := exists_values_of_weight_pos inputs nullFree present
    exact identity vals length
  rw [DistinctOp.weight_of_run shape columns inputs nullFree ran tuple]
  refine ⟨by split <;> simp, ?_⟩
  constructor
  · intro shown
    have present : 0 < weight (batches.flatMap ArrowZSet.valued) tuple := by
      by_contra absent
      rw [if_neg absent] at shown
      cases shown
    exact ⟨tuple, present, same tuple present⟩
  · rintro ⟨row, present, isTuple⟩
    rw [← isTuple, same row present, if_pos present]

end Shows

end Groups

/-- GROUP BY without aggregates: a query that the lowering accepts is compiled and shows, in every
run, the distinct group tuples if and only if it has no time window, every column of its input is an
integer that is NOT NULL, and the group list evaluates, on every row, to the row itself. -/
theorem group_without_aggregates_iff [ColumnIndex] (planHash : PlanNode → UInt64)
    (input : LogicalPlan) (groupExpr : List DfExpr) (schema : DfSchema) (node : PlanNode)
    (accepted : lower planHash (.aggregate input groupExpr [] schema) = .ok node)
    (meaning : Meaning input.schema) (inSchema : List Field)
    (width : inSchema.length = input.schema.length) (columns : 0 < input.schema.length) :
    ProducesGroups meaning groupExpr inSchema node ↔ PlainGroups groupExpr ∧
      (∀ field ∈ inSchema, field.dataType = .int64 ∧ field.nullable = false) ∧
      ∀ vals : List Int64, vals.length = input.schema.length →
        groupTuple meaning groupExpr (valuesRow vals) = valuesRow vals := by
  by_cases plain : PlainGroups groupExpr
  swap
  · refine iff_of_false ?_ fun all => plain all.1
    rintro ⟨op, compiled, _⟩
    obtain ⟨windows, groupBy, rfl⟩ := lower_group_windowed plain accepted
    simp [compileGroups] at compiled
  obtain ⟨inputNode, _, rfl⟩ := lower_group_eq_ok plain accepted
  by_cases typed : ∀ field ∈ inSchema, field.dataType = .int64
  swap
  · refine iff_of_false ?_ fun all => typed fun field mem => (all.2.1 field mem).1
    rintro ⟨op, compiled, _⟩
    simp [compileGroups, typed] at compiled
  have shape : Int64Shape inSchema input.schema.length := ⟨width, typed⟩
  have compiled : compileGroups inSchema (.distinct inputNode (planHash inputNode)) =
      some (.ok ⟨inSchema⟩) := by
    rw [compileGroups, if_pos typed]
  constructor
  · rintro ⟨op, isOp, shows⟩
    obtain rfl : (⟨inSchema⟩ : DistinctOp) = op :=
      Except.ok.inj (Option.some.inj (compiled.symm.trans isOp))
    refine ⟨plain, fun field mem => ⟨typed field mem, ?_⟩, fun vals length => ?_⟩
    · by_contra nullable
      obtain ⟨left, right, leftConforms, rightConforms, sameGet, differ⟩ :=
        exists_same_get shape mem (Bool.eq_true_of_not_eq_false nullable)
      refine differ (valuesRow_injective ?_)
      rw [← shows.eq_raw shape columns leftConforms, sameGet,
        shows.eq_raw shape columns rightConforms]
    · have own := shows.eq_raw shape columns (conforms_ofInt64 shape length)
      rw [get_ofInt64, extractRowVals_ofInt64] at own
      exact own
  · rintro ⟨_, notNull, identity⟩
    exact ⟨⟨inSchema⟩, compiled, showsGroups_of_identity shape columns
      (fun field isField => (notNull field isField).2) identity⟩

/-! ## Two queries -/

/-- A table `t` with the columns `a` and `b`. -/
def pairSchema : DfSchema := [⟨some "t", ⟨"a", .int64, false⟩⟩, ⟨some "t", ⟨"b", .int64, false⟩⟩]

def pairColumns : List Field := [⟨"a", .int64, false⟩, ⟨"b", .int64, false⟩]

def pairScan : LogicalPlan := .tableScan "t" none pairSchema

def columnA : DfExpr := .column ⟨some "t", "a"⟩

def columnB : DfExpr := .column ⟨some "t", "b"⟩

def columnMeaning : Meaning pairSchema := Meaning.ofTable pairSchema fun _ _ => none

theorem lower_pairScan_group {groupExpr : List DfExpr} (plain : PlainGroups groupExpr)
    (schema : DfSchema) : lower (fun _ => 0) (.aggregate pairScan groupExpr [] schema) =
      .ok (.distinct (.source "t") 0) := by
  rw [lower_group plain, pairScan, lower]
  rfl

theorem plainGroups_columns : PlainGroups [columnA, columnB] := by
  intro expr mem
  rcases mem_pair.mp mem with rfl | rfl <;> exact ⟨rfl, rfl⟩

theorem plainGroups_column : PlainGroups [columnA] := by
  intro expr mem
  rw [mem_singleton.mp mem]
  exact ⟨rfl, rfl⟩

/-- `SELECT a, b FROM t GROUP BY a, b`. -/
theorem group_without_aggregates_iff_sample :
    ProducesGroups columnMeaning [columnA, columnB] pairColumns (.distinct (.source "t") 0) := by
  refine (group_without_aggregates_iff (fun _ => 0) pairScan [columnA, columnB] pairSchema _
    (lower_pairScan_group plainGroups_columns _) columnMeaning pairColumns rfl (by decide)).mpr
    ⟨plainGroups_columns, by decide, fun vals length => ?_⟩
  match vals, length with
  | [_, _], _ => rfl

/-- `SELECT a FROM t GROUP BY a`: two rows with one value of `a` are shown as two rows of two
columns. -/
theorem group_subset_shows_whole_rows : ∃ outputs final,
    lower (fun _ => 0) (.aggregate pairScan [columnA] [] [⟨some "t", ⟨"a", .int64, false⟩⟩]) =
        .ok (.distinct (.source "t") 0) ∧
      compileGroups pairColumns (.distinct (.source "t") 0) = some (.ok ⟨pairColumns⟩) ∧
      Loop.run (DistinctOp.mk pairColumns).processDelta .new
        [singleBatch pairColumns ([1, 1].map Cell.ofInt64) (by decide),
          singleBatch pairColumns ([1, 2].map Cell.ofInt64) (by decide)] = .ok (outputs, final) ∧
      weight (outputs.flatMap ArrowZSet.valued) (valuesRow [1, 1]) = 1 ∧
      weight (outputs.flatMap ArrowZSet.valued) (valuesRow [1, 2]) = 1 ∧
      weight (outputs.flatMap ArrowZSet.valued) (valuesRow [1]) = 0 ∧
      groupTuple columnMeaning [columnA] (valuesRow [1, 1]) = valuesRow [1] ∧
      groupTuple columnMeaning [columnA] (valuesRow [1, 2]) = valuesRow [1] :=
  ⟨_, _, lower_pairScan_group plainGroups_column _, rfl, rfl, by decide +kernel, by decide +kernel,
    by decide +kernel, rfl, rfl⟩

end RockStream.Sql
