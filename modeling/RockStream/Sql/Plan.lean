import RockStream.Sql.Window
import RockStream.OuterJoin.Op

/-!
Contract: the plans before and after lowering.

A logical plan comes from the SQL planner, with the schema the planner gave each node. A
plan node is the plan of `rockstream-plan`.

Owns:
- `LogicalPlan`, its schema and its inputs;
- `PlanNode`, as far as `lower` builds it;
- the projection and aggregate expressions of a plan and their lowering.

Does not own: `lower`.
-/

namespace RockStream.Sql

open Lib

/-! ## Logical plans -/

inductive JoinType where
  | inner | left | right | full | leftSemi | leftAnti | rightSemi | rightAnti | leftMark | rightMark
deriving DecidableEq, Repr

def JoinType.debug : JoinType → String
  | .inner => "Inner"
  | .left => "Left"
  | .right => "Right"
  | .full => "Full"
  | .leftSemi => "LeftSemi"
  | .leftAnti => "LeftAnti"
  | .rightSemi => "RightSemi"
  | .rightAnti => "RightAnti"
  | .leftMark => "LeftMark"
  | .rightMark => "RightMark"

inductive LogicalPlan where
  | tableScan (tableName : String) (projection : Option (List Nat)) (schema : DfSchema)
  | filter (input : LogicalPlan) (predicate : DfExpr)
  | projection (input : LogicalPlan) (expr : List DfExpr) (schema : DfSchema)
  | aggregate (input : LogicalPlan) (groupExpr aggrExpr : List DfExpr) (schema : DfSchema)
  | subqueryAlias (input : LogicalPlan) (schema : DfSchema)
  | extension (name : String) (inputs : List LogicalPlan) (schema : DfSchema)
  | join (left right : LogicalPlan) (on : List (DfExpr × DfExpr)) (filter : Option DfExpr)
      (joinType : JoinType) (nullAware : Bool) (schema : DfSchema)
  | distinctAll (input : LogicalPlan)
  | distinctOn (input : LogicalPlan) (schema : DfSchema)
  | union (inputs : List LogicalPlan) (schema : DfSchema)
  | window (input : LogicalPlan) (windowExpr : List DfExpr) (schema : DfSchema)
  | unnest (input : LogicalPlan) (listTypeColumns structTypeColumns : List Nat) (schema : DfSchema)
  | recursiveQuery (name : String) (staticTerm recursiveTerm : LogicalPlan) (isDistinct : Bool)
      (schema : DfSchema)
  /-- A plan that the lowering refuses, under the name `plan_node_name` gives it. -/
  | other (name : String) (inputs : List LogicalPlan) (schema : DfSchema)

namespace LogicalPlan

def schema : LogicalPlan → DfSchema
  | tableScan _ _ schema => schema
  | filter input _ => input.schema
  | projection _ _ schema => schema
  | aggregate _ _ _ schema => schema
  | subqueryAlias _ schema => schema
  | extension _ _ schema => schema
  | join _ _ _ _ _ _ schema => schema
  | distinctAll input => input.schema
  | distinctOn _ schema => schema
  | union _ schema => schema
  | window _ _ schema => schema
  | unnest _ _ _ schema => schema
  | recursiveQuery _ _ _ _ schema => schema
  | other _ _ schema => schema

/-- `while let LogicalPlan::SubqueryAlias(alias) = plan { plan = &alias.input }`. -/
def stripAliases : LogicalPlan → LogicalPlan
  | subqueryAlias input _ => input.stripAliases
  | plan => plan

theorem sizeOf_stripAliases_le (plan : LogicalPlan) : sizeOf plan.stripAliases ≤ sizeOf plan := by
  fun_induction stripAliases plan with
  | case1 input schema ih =>
    simp only [subqueryAlias.sizeOf_spec]
    omega
  | case2 => exact le_rfl

end LogicalPlan

/-! ## Plan nodes -/

inductive LateDataPolicy where
  | drop
  | update
  | routeToSink (sinkName : String)
deriving DecidableEq, Repr

structure JoinSemantics where
  insideSemijoin : Bool := false
  isJoinChild : Bool := false
  rOldMaterialize : Bool := false
deriving DecidableEq, Repr

inductive AggregateFunc where
  | count | sum | avg | min | max | median
deriving DecidableEq, Repr

structure AggregateExpr where
  func : AggregateFunc
  input : Expr
  distinct : Bool

inductive LateralFunc where
  | unnest (col : Nat)
deriving DecidableEq, Repr

abbrev OperatorId := UInt64

/-- The plan nodes that `lower` builds. -/
inductive PlanNode where
  | source (name : String)
  | filter (input : PlanNode) (predicate : Expr)
  | project (input : PlanNode) (columns : List Expr)
  | aggregate (input : PlanNode) (groupBy : List Expr) (aggregates : List AggregateExpr)
  | innerJoin (left right : PlanNode) (leftKeys rightKeys : List Nat)
      (leftArrId rightArrId : OperatorId) (semantics : JoinSemantics)
  | outerJoin (kind : OuterJoinKind) (left right : PlanNode) (leftKeys rightKeys : List Nat)
      (leftArrId rightArrId unmatchedArrId : OperatorId)
  | union (left right : PlanNode)
  | distinct (input : PlanNode) (arrId : OperatorId)
  | window (input : PlanNode) (windowExprs : List WindowExpr)
  | tumbleWindow (input : PlanNode) (timeCol : Nat) (windowSizeMs : Int64)
      (lateDataPolicy : LateDataPolicy)
  | hopWindow (input : PlanNode) (timeCol : Nat) (windowSizeMs slideMs : Int64)
      (lateDataPolicy : LateDataPolicy)
  | sessionWindow (input : PlanNode) (timeCol : Nat) (gapMs : Int64)
      (lateDataPolicy : LateDataPolicy)
  | topK (input : PlanNode) (k rankCol : Nat) (partitionBy : List Nat)
  | recursion (base step : PlanNode) (maxIterations : Nat) (monotone : Bool)
  | lateral (input : PlanNode) (func : LateralFunc)

/-! ## Expressions of a plan -/

variable [ColumnIndex]

def lowerProjExpr (schema : DfSchema) : DfExpr → Lowering Expr
  | .alias expr _ => lowerProjExpr schema expr
  | other => lowerExpr schema other

def aggregateFunc (name : String) : Lowering AggregateFunc :=
  match name with
  | "sum" => .ok .sum
  | "count" => .ok .count
  | "avg" => .ok .avg
  | "min" => .ok .min
  | "max" => .ok .max
  | "median" => .ok .median
  | other => unsupported ("aggregate_function:" ++ other)

/-- `Expr::Literal(1i64.to_be_bytes().to_vec())`. -/
def literalOne : Expr := .literal (Bytes.ofInt64 1)

/-- `lower_agg_expr`. A function without arguments counts rows. -/
def lowerAggExpr (schema : DfSchema) : DfExpr → Lowering AggregateExpr
  | .aggregateFunction name args distinct => do
    let func ← aggregateFunc name.toLower
    let input ← match args with
      | [] => pure literalOne
      | arg :: _ => lowerExpr schema arg
    pure ⟨func, input, distinct⟩
  | .alias expr _ => lowerAggExpr schema expr
  | other => unsupported ("agg_expr:" ++ exprName other)

mutual

/-- `shift_expr_cols`: every column moves one place to the right. -/
def shiftExprCols : Expr → Expr
  | .column index => .column (index + 1)
  | .literal bytes => .literal bytes
  | .binaryOp op left right => .binaryOp op (shiftExprCols left) (shiftExprCols right)
  | .scalarUdf name args => .scalarUdf name (shiftArgs args)
  | .case whenThen elseExpr => .case (shiftBranches whenThen) (shiftExprCols elseExpr)

def shiftArgs : List Expr → List Expr
  | [] => []
  | arg :: args => shiftExprCols arg :: shiftArgs args

def shiftBranches : List (Expr × Expr) → List (Expr × Expr)
  | [] => []
  | (condition, result) :: branches =>
    (shiftExprCols condition, shiftExprCols result) :: shiftBranches branches

end

/-- An aggregate over shifted columns. -/
def AggregateExpr.shift (aggregate : AggregateExpr) : AggregateExpr :=
  { aggregate with input := shiftExprCols aggregate.input }

end RockStream.Sql
