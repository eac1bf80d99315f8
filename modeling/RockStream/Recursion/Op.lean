import RockStream.Recursion.Relation
import RockStream.Sql.Plan

/-!
Contract: the recursive operator (`recursion.rs`).

The operator keeps the weighted input and the fixed point that was last shown. Every epoch
evaluates the base and the step plan over the whole input until the step adds no row, and
emits the difference of the two fixed points.

How an expression evaluates on a row of integers is a parameter; a batch is evaluated row
by row.

Owns:
- `evalPlan`, the evaluation of a plan over bound relations;
- `RecursionOp` with the choice of its source names, and `computeFixedPoint`;
- `processEpoch`, with the state that each of its failures leaves.

Does not own: plan nodes that no lowered query holds (`Snapshot`, `ViewRef`, `Exchange`,
`ViewSink`), `process_distributed_epoch`, and the fill level.
-/

namespace RockStream

open Lib Sql RockStream.Relation

/-! ## Rows -/

/-- `apply_delta_to_relation`. Rows are read as `extract_row` does, by their raw values. -/
def applyDeltaToRelation (relation : Relation) (delta : ArrowZSet) : Exec Relation :=
  (delta.rows.map fun row => (extractRowVals row.1, row.2)).foldlM
    (fun relation entry => relation.addNet entry.1 entry.2) relation

/-- `relation_to_batch`: the rows of positive weight. The width is that of the first row; a longer
row is out of bounds, and a shorter one leaves columns of different lengths. -/
def relationToBatch (relation : Relation) : Exec (List (List Int64 × Int)) :=
  let width := ((BTreeMap.firstKey relation).map List.length).getD 0
  let rows := relation.toList.filter fun entry => 0 < entry.2
  if rows.any fun entry => width < entry.1.length then .error (.panicked "index out of bounds")
  else if rows.isEmpty then .ok []
  else if width = 0 ∨ rows.any fun entry => entry.1.length < width then .error (.err .arrow)
  else .ok rows

/-- `build_zset`: rows are cut to the width of the schema. A row that is neither empty nor full
leaves columns of different lengths, and an empty row leaves more weights than rows. -/
def buildZset (schema : List Field) (relation : Relation) : Exec ArrowZSet :=
  let entries := relation.toList.filter fun entry => entry.2 ≠ 0
  let full := entries.filter fun entry => schema.length ≤ entry.1.length
  if entries.isEmpty then ArrowZSet.empty schema
  else if entries.any fun entry => 0 < entry.1.length ∧ entry.1.length < schema.length then
    .error (.err .arrow)
  else do
    let batch ← ArrowZSet.tryNew schema (full.map fun entry =>
      ((entry.1.take schema.length).map Cell.ofInt64, entry.2))
    if full.length ≠ entries.length then
      .error (.panicked "ArrowZSet: data rows != weights len")
    else pure batch

/-! ## Plans -/

/-- The `Debug` text of a structure. -/
def debugFields (name : String) (fields : List (String × String)) : String :=
  name ++ " \x7b " ++ String.intercalate ", "
    (fields.map fun field => field.1 ++ ": " ++ field.2) ++
    " \x7d"

def Sql.LateDataPolicy.debug : LateDataPolicy → String
  | .drop => "Drop"
  | .update => "Update"
  | .routeToSink sinkName => debugFields "RouteToSink" [("sink_name", sinkName.quote)]

/-- The `Debug` text of `plan_kind`, for the nodes that the evaluator refuses. -/
def planKind : PlanNode → String
  | .window _ _ => debugFields "Window" [("strategy", "PartitionRecompute")]
  | .tumbleWindow _ _ windowSizeMs policy =>
    debugFields "TumbleWindow"
      [("window_size_ms", toString windowSizeMs), ("late_data_policy", policy.debug)]
  | .hopWindow _ _ windowSizeMs slideMs policy =>
    debugFields "HopWindow" [("window_size_ms", toString windowSizeMs),
      ("slide_ms", toString slideMs), ("late_data_policy", policy.debug)]
  | .sessionWindow _ _ gapMs policy =>
    debugFields "SessionWindow" [("gap_ms", toString gapMs), ("late_data_policy", policy.debug)]
  | .topK _ k rankCol partitionBy =>
    debugFields "TopK" [("k", toString k), ("rank_col", toString rankCol),
      ("partition_by", toString partitionBy)]
  | .recursion _ _ maxIterations monotone =>
    debugFields "Recursion"
      [("max_iterations", toString maxIterations), ("monotone", toString monotone)]
  | .lateral _ (.unnest col) =>
    debugFields "Lateral" [("func", debugFields "Unnest" [("col", toString col)])]
  | _ => ""

def unimplementedNode (plan : PlanNode) : Exec Relation :=
  .error (.err (.unimplemented ("recursion evaluator for " ++ planKind plan) 1014))

/-- `collect_source_names`, in the order of the leaves. -/
def collectSourceNames : PlanNode → List String
  | .source name => [name]
  | .filter input _ => collectSourceNames input
  | .project input _ => collectSourceNames input
  | .aggregate input _ _ => collectSourceNames input
  | .distinct input _ => collectSourceNames input
  | .window input _ => collectSourceNames input
  | .tumbleWindow input _ _ _ => collectSourceNames input
  | .hopWindow input _ _ _ _ => collectSourceNames input
  | .sessionWindow input _ _ _ => collectSourceNames input
  | .topK input _ _ _ => collectSourceNames input
  | .lateral input _ => collectSourceNames input
  | .innerJoin left right _ _ _ _ _ => collectSourceNames left ++ collectSourceNames right
  | .outerJoin _ left right _ _ _ _ _ => collectSourceNames left ++ collectSourceNames right
  | .union left right => collectSourceNames left ++ collectSourceNames right
  | .recursion base step _ _ => collectSourceNames base ++ collectSourceNames step

def keysMatch (leftRow rightRow : List Int64) : List (Nat × Nat) → Exec Bool
  | [] => .ok true
  | (leftKey, rightKey) :: keys =>
    match leftRow[leftKey]?, rightRow[rightKey]? with
    | some left, some right => if left = right then keysMatch leftRow rightRow keys else .ok false
    | _, _ => .error (.panicked "index out of bounds")

/-- `eval_i64` and `eval_bool` on a row of integers without NULL. -/
structure RowEval where
  evalI64 : Sql.Expr → List Int64 → Exec Int64
  evalBool : Sql.Expr → List Int64 → Exec Bool

section Eval

variable (eval : RowEval)

/-- One entry of the aggregate loop: sum and count of its group, once per unit of weight. -/
def aggregateRow (groupBy : List Sql.Expr) (aggregates : List AggregateExpr)
    (groups : BTreeMap (List Int64) (Int × Int)) (row : List Int64) :
    Exec (BTreeMap (List Int64) (Int × Int)) := do
  let _ ← relationToBatch ((∅ : Relation).insert row 1)
  let groupKey ← groupBy.mapM fun expr => eval.evalI64 expr row
  let entry := (groups[groupKey]?).getD (0, 0)
  let count ← addI64 entry.2 1
  match aggregates with
  | [] => .error (.panicked "index out of bounds")
  | aggregate :: _ => do
    let aggValue ← eval.evalI64 aggregate.input row
    let sum ← addI64 entry.1 aggValue.toInt
    pure (groups.insert groupKey (sum, count))

/-- The value of a group. -/
def aggregateValue (func : AggregateFunc) (sum count : Int) : Int :=
  match func with
  | .count => count
  | .sum => sum
  | .avg => if count = 0 then 0 else sum.tdiv count
  | _ => 0

def evalPlan (bindings : String → Relation) : PlanNode → Exec Relation
  | .source name => .ok (bindings name)
  | .filter input predicate => do
    let inputRelation ← evalPlan bindings input
    if inputRelation.isEmpty then pure ∅
    else
      let batch ← relationToBatch inputRelation
      let mask ← batch.mapM fun entry => eval.evalBool predicate entry.1
      (batch.zip mask).foldlM (fun (out : Relation) item =>
        if item.2 then out.addRow item.1.1 item.1.2 else pure out) ∅
  | .project input columns => do
    let inputRelation ← evalPlan bindings input
    if inputRelation.isEmpty then pure ∅
    else
      let batch ← relationToBatch inputRelation
      -- the columns are evaluated one after another, so a failure is that of the first one
      let _ ← columns.mapM fun expr => batch.mapM fun entry => eval.evalI64 expr entry.1
      batch.foldlM (fun (out : Relation) entry => do
        let row ← columns.mapM fun expr => eval.evalI64 expr entry.1
        out.addRow row entry.2) ∅
  | .union left right => do
    let out ← evalPlan bindings left
    let rightRelation ← evalPlan bindings right
    mergeRelation out rightRelation
  | .distinct input _ => do
    let inputRelation ← evalPlan bindings input
    pure (distinctRelation inputRelation)
  | .innerJoin left right leftKeys rightKeys _ _ _ => do
    let leftRelation ← evalPlan bindings left
    let rightRelation ← evalPlan bindings right
    (positiveRelation leftRelation).toList.foldlM (fun out leftEntry =>
      (positiveRelation rightRelation).toList.foldlM (fun (out : Relation) rightEntry => do
        if ← keysMatch leftEntry.1 rightEntry.1 (leftKeys.zip rightKeys) then
          let weight ← mulI64 leftEntry.2 rightEntry.2
          out.addRow (leftEntry.1 ++ rightEntry.1) weight
        else pure out) out) ∅
  | .outerJoin kind left right leftKeys rightKeys _ _ _ => do
    let leftRelation ← evalPlan bindings left
    let rightRelation ← evalPlan bindings right
    (positiveRelation leftRelation).toList.foldlM (fun (out : Relation) leftEntry => do
      let matched ← (positiveRelation rightRelation).keys.anyM fun rightRow =>
        keysMatch leftEntry.1 rightRow (leftKeys.zip rightKeys)
      match kind with
      | .semi => if matched then out.addRow leftEntry.1 leftEntry.2 else pure out
      | .anti | .nullAwareAnti => if matched then pure out else out.addRow leftEntry.1 leftEntry.2
      | _ => pure out) ∅
  | .aggregate input groupBy aggregates => do
    let inputRelation ← evalPlan bindings input
    if (positiveRelation inputRelation).isEmpty then pure ∅
    else
      let groups ← ((positiveRelation inputRelation).toList.flatMap fun entry =>
        List.replicate entry.2.toNat entry.1).foldlM (aggregateRow eval groupBy aggregates) ∅
      match aggregates with
      | [] => .error (.panicked "index out of bounds")
      | aggregate :: _ =>
        pure (groups.toList.foldl (fun (out : Relation) group => out.insert (group.1 ++
          [Int64.ofInt (aggregateValue aggregate.func group.2.1 group.2.2)]) 1) ∅)
  | plan => unimplementedNode plan

end Eval

/-! ## The operator -/

structure RecursionOp where
  schema : List Field
  base : PlanNode
  step : PlanNode
  recursiveSourceName : String
  inputSourceName : String
  maxIterations : Nat
  monotone : Bool
  stateLimit : Nat

/-- The recursive source: the first source of the step that the base does not read, else its first
source. -/
def chooseRecursive (base step : PlanNode) : String :=
  (((collectSourceNames step).find? fun name => !(collectSourceNames base).contains name).or
    (collectSourceNames step).head?).getD "recursive"

def chooseInput (base : PlanNode) (recursiveSourceName : String) : String :=
  ((collectSourceNames base).find? fun name => name ≠ recursiveSourceName).getD recursiveSourceName

def recursionStateLimit : Nat := 100000

def RecursionOp.newWithStateLimit (schema : List Field) (base step : PlanNode) (maxIterations : Nat)
    (monotone : Bool) (stateLimit : Nat) : RecursionOp where
  schema := schema
  base := base
  step := step
  recursiveSourceName := chooseRecursive base step
  inputSourceName := chooseInput base (chooseRecursive base step)
  maxIterations := maxIterations
  monotone := monotone
  stateLimit := stateLimit

def RecursionOp.new (schema : List Field) (base step : PlanNode) (maxIterations : Nat)
    (monotone : Bool) : RecursionOp :=
  .newWithStateLimit schema base step maxIterations monotone recursionStateLimit

abbrev IterationRows := HashMap (RowId × UInt32) (List Int64 × Int)

structure RecursionState where
  inputRelation : Relation
  outputRelation : Relation
  iterationRows : IterationRows

def RecursionState.new : RecursionState := ⟨∅, ∅, ∅⟩

structure FixedPointResult where
  outputRelation : Relation
  iterationRows : IterationRows

namespace RecursionOp

variable (op : RecursionOp)

/-- The bindings of the sources: the recursive one is bound last, and every other source than the
two is empty. -/
def bindings (input recursive : Relation) (name : String) : Relation :=
  if name = op.recursiveSourceName then recursive
  else if name = op.inputSourceName then input
  else ∅

/-- The rows of an iteration, recorded under their hashes (`row_hash` is that of the window
operator). -/
def recordRows (iterationRows : IterationRows) (iteration : Nat) (relation : Relation) :
    IterationRows :=
  relation.keys.foldl (fun iterationRows row =>
    iterationRows.insert (rowHash row, UInt32.ofNat iteration) (row, 1)) iterationRows

variable (eval : RowEval)

/-- The loop of `compute_fixed_point`, with the iterations that remain. -/
def fixedPointLoop (input : Relation) : Nat → Nat → FixedPointResult → Exec FixedPointResult
  | 0, _, _ => .error (.err (.recursionMaxIterations op.maxIterations))
  | remaining + 1, iteration, current => do
    let stepped ← evalPlan eval (op.bindings input current.outputRelation) op.step
    let delta := relationDifference (distinctRelation stepped) current.outputRelation
    if delta.isEmpty then pure current
    else
      let iterationRows := recordRows current.iterationRows iteration delta
      let outputRelation ← mergeRelation current.outputRelation delta
      if op.stateLimit < iterationRows.size then
        .error (.err (.recursionStateOverflow iterationRows.size op.stateLimit))
      else fixedPointLoop input remaining (iteration + 1) ⟨outputRelation, iterationRows⟩

def computeFixedPoint (inputRelation : Relation) : Exec FixedPointResult := do
  let input := positiveRelation inputRelation
  let based ← evalPlan eval (op.bindings input ∅) op.base
  let outputRelation := distinctRelation based
  op.fixedPointLoop eval input op.maxIterations 1
    ⟨outputRelation, recordRows ∅ 0 outputRelation⟩

/-- `process_epoch`. A failed fixed point leaves the input with the delta in it. -/
def processEpoch (state : RecursionState) (delta : ArrowZSet) :
    Step RecursionState (ArrowZSet × RecursionState) := do
  if op.monotone ∧ ∃ row ∈ delta.rows, row.2 < 0 then
    .error (.err .recursionNonMonotoneDelta, state)
  else
    let inputRelation ← (applyDeltaToRelation state.inputRelation delta).within state
    let applied := { state with inputRelation }
    let fixed ← (op.computeFixedPoint eval inputRelation).within applied
    if op.stateLimit < fixed.iterationRows.size then
      .error (.err (.recursionStateOverflow fixed.iterationRows.size op.stateLimit), applied)
    else
      let diff ← (diffRelations state.outputRelation fixed.outputRelation).within applied
      let next : RecursionState := ⟨inputRelation, fixed.outputRelation, fixed.iterationRows⟩
      let output ← (buildZset op.schema diff).within next
      pure (output, next)

end RecursionOp

end RockStream
