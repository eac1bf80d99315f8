import RockStream.Sql.Expr
import RockStream.Window.Op

/-!
Contract: the lowering of window expressions (`rockstream-sql/src/lower.rs`).

Owns: `lowerWindowExpr` with `lowerWindowFunc` and its argument readers.

Does not own: the window operator, and what a window query means.
-/

namespace RockStream.Sql

open Lib

variable [ColumnIndex]

def asUsize (value : Int64) : Nat := value.toUInt64.toNat

def extractLagLeadOffset (args : List DfExpr) (fallback : Nat) : Nat :=
  match args with
  | _ :: .literal (.int64 value) :: _ => asUsize value
  | _ :: .literal (.int32 value) :: _ => asUsize value.toInt64
  | _ :: .literal (.uint64 value) :: _ => value.toNat
  | _ => fallback

def extractColumnIndex (schema : DfSchema) : DfExpr → Option Nat
  | .column col => indexOfColumn schema col
  | .cast expr _ => extractColumnIndex schema expr
  | .tryCast expr _ => extractColumnIndex schema expr
  | _ => none

def unsupportedWindow {α : Type} (fnName : String) : Lowering α :=
  .error (.err (.unsupportedWindowFunction fnName))

def extractWindowAggValueCol (call : WindowFunction DfExpr) (schema : DfSchema) : Lowering Nat :=
  match call.args.head? with
  | none => unsupportedWindow "SLIDING_AGGREGATE_MISSING_ARG"
  | some arg =>
    match extractColumnIndex schema arg with
    | some index => .ok index
    | none => unsupportedWindow "SLIDING_AGGREGATE_NON_COLUMN_ARG"

/-- `*n as usize + 1`. -/
def frameRowsOf (preceding : Nat) : Lowering Nat :=
  if preceding + 1 < 2 ^ 64 then .ok (preceding + 1) else .error .overflow

def lowerSlidingAggregate (call : WindowFunction DfExpr) (schema : DfSchema) (name : String) :
    Lowering WindowFunc :=
  if call.frameUnits ≠ .rows then unsupportedWindow (name.toUpper ++ "_OVER_NON_ROWS_FRAME")
  else do
    let frameRows ← match call.frameStart with
      | .preceding (.uint64 value) => frameRowsOf value.toNat
      | .preceding (.int64 value) => frameRowsOf (asUsize value)
      | .preceding _ => unsupportedWindow (name.toUpper ++ "_UNBOUNDED_PRECEDING")
      | _ => unsupportedWindow (name.toUpper ++ "_FRAME")
    if name = "sum" ∨ name = "SUM" then
      let valueCol ← extractWindowAggValueCol call schema
      pure (.slidingSum frameRows valueCol)
    else if name = "avg" ∨ name = "AVG" ∨ name = "mean" then
      let valueCol ← extractWindowAggValueCol call schema
      pure (.slidingAvg frameRows valueCol)
    else unsupportedWindow name.toUpper

/-- `lower_window_func`. The first argument of LAG and LEAD is not read. -/
def lowerWindowFunc (call : WindowFunction DfExpr) (schema : DfSchema) : Lowering WindowFunc :=
  match call.definition with
  | .windowUdf "row_number" => .ok .rowNumber
  | .windowUdf "rank" => .ok .rank
  | .windowUdf "dense_rank" => .ok .denseRank
  | .windowUdf "lag" => .ok (.lag (extractLagLeadOffset call.args 1))
  | .windowUdf "lead" => .ok (.lead (extractLagLeadOffset call.args 1))
  | .windowUdf "ntile" => unsupportedWindow "NTILE"
  | .windowUdf name => unsupportedWindow name.toUpper
  | .aggregateUdf name => lowerSlidingAggregate call schema name

/-- A column that resolves; another expression is dropped. -/
def columnIndex? (schema : DfSchema) : DfExpr → Option Nat
  | .column col => indexOfColumn schema col
  | _ => none

def lowerWindowExpr (expr : DfExpr) (schema : DfSchema) : Lowering WindowExpr :=
  match expr with
  | .windowFunction call =>
    if ∃ sort ∈ call.orderBy, sort.asc = false then
      unsupported "window_expr:order_by_desc_not_supported_by_generic_window_path"
    else do
      let func ← lowerWindowFunc call schema
      pure
        { func := func
          partitionBy := call.partitionBy.filterMap (columnIndex? schema)
          orderBy := call.orderBy.filterMap fun sort => columnIndex? schema sort.expr }
  | other => unsupported ("window_expr:" ++ exprName other)

theorem lowerWindowExpr_eq_ok {call : WindowFunction DfExpr} {schema : DfSchema} {expr : WindowExpr}
    (accepted : lowerWindowExpr (.windowFunction call) schema = .ok expr) :
    lowerWindowFunc call schema = .ok expr.func ∧
      expr.partitionBy = call.partitionBy.filterMap (columnIndex? schema) ∧
      expr.orderBy = call.orderBy.filterMap fun sort => columnIndex? schema sort.expr := by
  rw [lowerWindowExpr] at accepted
  split at accepted
  · cases accepted
  · obtain ⟨func, lowered, built⟩ := Loop.bind_eq_ok.mp accepted
    cases built
    exact ⟨lowered, rfl, rfl⟩

end RockStream.Sql
