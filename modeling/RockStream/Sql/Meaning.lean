import RockStream.Sql.Expr

/-!
Contract: what the planner's expressions mean.

The evaluation of SQL expressions belongs to the planner's library. A result that compares
a lowered plan with its query holds for every meaning that reads columns as they are.

Owns: `Meaning`, the meanings of expressions over the rows of a schema.

Does not own: the evaluation of plan expressions.
-/

namespace RockStream.Sql

open Lib

/-- A meaning of expressions over the rows of a schema: a column denotes its value. -/
structure Meaning [ColumnIndex] (schema : DfSchema) where
  eval : DfExpr → Row → Option Value
  column : ∀ {col : Column} {index : Nat}, indexOfColumn schema col = some index →
    ∀ row : Row, eval (.column col) row = row[index]?.join

namespace Meaning

variable [ColumnIndex]

/-- The meaning that knows columns, and gives other expressions by a table. -/
def ofTable (schema : DfSchema) (other : DfExpr → Row → Option Value) : Meaning schema where
  eval expr row :=
    match expr with
    | .column col => (indexOfColumn schema col).elim none fun index => row[index]?.join
    | expr => other expr row
  column := by
    intro col index found row
    show (indexOfColumn schema col).elim none _ = _
    rw [found]
    rfl

end Meaning

end RockStream.Sql
