import RockStream.Arrow

/-!
Contract: SQL expressions and their lowering (`rockstream-sql/src/lower.rs`).

The SQL planner is a library; its expressions are data here, as far as the lowering
looks into them. What an expression means is not defined in this module: a module that
compares results takes the meaning as a parameter.

Owns:
- `Column`, `DfSchema` and the resolution of a column to its index;
- `ScalarValue`, `DfExpr`, and the plan expressions `Expr`;
- `SqlError`, and `lowerExpr` with the encoding of literals.

Does not own: expressions that no lowered query may contain, beyond their name.
-/

namespace RockStream.Sql

open Lib

/-! ## Errors -/

structure Column where
  relation : Option String
  name : String
deriving DecidableEq, Repr

/-- Errors of the lowering. A column that is not resolved is an unsupported plan node whose text
ends with the planner's message. -/
inductive SqlError where
  | unsupportedPlanNode (nodeType : String)
  | columnResolution (place : String) (col : Column)
  | floatJoinRejected
  | unsupportedWindowFunction (fnName : String)
deriving DecidableEq, Repr

/-- How a lowering stops: an error, or a panic. -/
inductive SqlFault where
  | err (error : SqlError)
  | overflow
  | outOfBounds
deriving DecidableEq, Repr

abbrev Lowering (α : Type) := Except SqlFault α

def unsupported {α : Type} (nodeType : String) : Lowering α :=
  .error (.err (.unsupportedPlanNode nodeType))

/-! ## Schemas -/

/-- A column of a schema with its qualifier. -/
structure QualifiedField where
  qualifier : Option String
  field : Field
deriving DecidableEq, Repr

abbrev DfSchema := List QualifiedField

/-- `DFSchema::index_of_column` of the planner: a column that is found lies in the schema. -/
class ColumnIndex where
  indexOfColumn : DfSchema → Column → Option Nat
  indexOfColumn_lt : ∀ {schema : DfSchema} {col : Column} {index : Nat},
    indexOfColumn schema col = some index → index < schema.length

export ColumnIndex (indexOfColumn indexOfColumn_lt)

/-- The first column of the name; a reference without qualifier matches by name alone. -/
instance ColumnIndex.byName : ColumnIndex where
  indexOfColumn schema col := schema.findIdx? fun entry =>
    entry.field.name = col.name ∧ (col.relation = none ∨ entry.qualifier = col.relation)
  indexOfColumn_lt found := (List.findIdx?_eq_some_iff_getElem.mp found).1

variable [ColumnIndex]

def resolveColumn (schema : DfSchema) (col : Column) (place : String) : Lowering Nat :=
  match indexOfColumn schema col with
  | some index => .ok index
  | none => .error (.err (.columnResolution place col))

/-! ## Expressions of the planner -/

/-- Literals. A NULL of any type that the encoder knows is `null`. -/
inductive ScalarValue where
  | null
  | int8 (value : Int8)
  | int16 (value : Int16)
  | int32 (value : Int32)
  | int64 (value : Int64)
  | uint8 (value : UInt8)
  | uint16 (value : UInt16)
  | uint32 (value : UInt32)
  | uint64 (value : UInt64)
  /-- The bits of the `f64`; an `f32` is widened. -/
  | float (bits : UInt64)
  | boolean (value : Bool)
  | utf8 (text : Bytes)
  | date32 (value : Int32)
  | date64 (value : Int64)
  | timestampSecond (value : Int64)
  | timestampMillisecond (value : Int64)
  | timestampMicrosecond (value : Int64)
  | timestampNanosecond (value : Int64)
  | intervalMonthDayNano (months days : Int32) (nanoseconds : Int64)
  | intervalDayTime (days milliseconds : Int32)
  | intervalYearMonth (months : Int32)
  /-- A literal of another type, with its `Debug` text. -/
  | other (debug : String)
deriving DecidableEq

inductive DfOp where
  | eq | notEq | lt | ltEq | gt | gtEq | plus | minus | multiply | divide | modulo | and | or
  /-- An operator the lowering does not know, with its `Debug` text. -/
  | other (debug : String)
deriving DecidableEq, Repr

/-- A sort key of a window or an ORDER BY. -/
structure SortExpr (ε : Type) where
  expr : ε
  asc : Bool
  nullsFirst : Bool

inductive WindowFunctionDefinition where
  | windowUdf (name : String)
  | aggregateUdf (name : String)
deriving DecidableEq, Repr

inductive WindowFrameUnits where
  | rows | range | groups
deriving DecidableEq, Repr

inductive WindowFrameBound where
  | preceding (value : ScalarValue)
  | currentRow
  | following (value : ScalarValue)
deriving DecidableEq

structure WindowFunction (ε : Type) where
  definition : WindowFunctionDefinition
  args : List ε
  partitionBy : List ε
  orderBy : List (SortExpr ε)
  frameUnits : WindowFrameUnits
  frameStart : WindowFrameBound

inductive DfExpr where
  | column (col : Column)
  | literal (value : ScalarValue)
  | binaryExpr (left : DfExpr) (op : DfOp) (right : DfExpr)
  | alias (expr : DfExpr) (name : String)
  | cast (expr : DfExpr) (dataType : DataType)
  | tryCast (expr : DfExpr) (dataType : DataType)
  | case (base : Option DfExpr) (whenThen : List (DfExpr × DfExpr)) (elseExpr : Option DfExpr)
  | scalarFunction (name : String) (args : List DfExpr)
  | aggregateFunction (name : String) (args : List DfExpr) (distinct : Bool)
  | windowFunction (call : WindowFunction DfExpr)
  /-- An expression that the lowering only names. -/
  | other (name : String)

def exprName : DfExpr → String
  | .column _ => "Column"
  | .literal _ => "Literal"
  | .binaryExpr _ _ _ => "BinaryExpr"
  | .alias _ _ => "Alias"
  | .cast _ _ => "Cast"
  | .tryCast _ _ => "TryCast"
  | .case _ _ _ => "Case"
  | .scalarFunction _ _ => "ScalarFunction"
  | .aggregateFunction _ _ _ => "AggregateFunction"
  | .windowFunction _ => "WindowFunction"
  | .other name => name

/-! ## Expressions of the plan -/

inductive BinaryOp where
  | eq | ne | lt | le | gt | ge | add | sub | mul | div | mod | and | or
deriving DecidableEq, Repr

/-- Scalar expressions of the plan; a literal is stored as bytes. -/
inductive Expr where
  | column (index : Nat)
  | literal (bytes : Bytes)
  | binaryOp (op : BinaryOp) (left right : Expr)
  | scalarUdf (name : String) (args : List Expr)
  | case (whenThen : List (Expr × Expr)) (elseExpr : Expr)

def caseMissingElseSentinel : Int64 := Int64.minValue

/-! ## Lowering -/

/-- A saturating result on `i64`. -/
def saturate (value : Int) : Int64 := Int64.ofInt (max (-2 ^ 63) (min (2 ^ 63 - 1) value))

def saturatingAdd (left right : Int64) : Int64 := saturate (left.toInt + right.toInt)

/-- A day in microseconds; a month has thirty days. -/
def dayMicros : Int := 86400000000

def encodeScalar : ScalarValue → Lowering Bytes
  | .null => .ok []
  | .int8 value => .ok (Bytes.ofInt64 value.toInt64)
  | .int16 value => .ok (Bytes.ofInt64 value.toInt64)
  | .int32 value => .ok (Bytes.ofInt64 value.toInt64)
  | .int64 value => .ok (Bytes.ofInt64 value)
  | .uint8 value => .ok (Bytes.ofInt64 value.toUInt64.toInt64)
  | .uint16 value => .ok (Bytes.ofInt64 value.toUInt64.toInt64)
  | .uint32 value => .ok (Bytes.ofInt64 value.toUInt64.toInt64)
  | .uint64 value => .ok (Bytes.ofInt64 value.toInt64)
  | .float bits => .ok (Bytes.ofInt64 bits.toInt64)
  | .boolean value => .ok [if value then 1 else 0]
  | .utf8 text => .ok text
  | .date32 value => .ok (Bytes.ofInt64 value.toInt64)
  | .date64 value => .ok (Bytes.ofInt64 value)
  | .timestampSecond value => .ok (Bytes.ofInt64 (saturate (value.toInt * 1000000)))
  | .timestampMillisecond value => .ok (Bytes.ofInt64 (saturate (value.toInt * 1000)))
  | .timestampMicrosecond value => .ok (Bytes.ofInt64 value)
  | .timestampNanosecond value => .ok (Bytes.ofInt64 (value / 1000))
  | .intervalMonthDayNano months days nanoseconds =>
    let daysAndNanos := saturatingAdd (saturate (days.toInt * dayMicros)) (nanoseconds / 1000)
    .ok (Bytes.ofInt64 (saturatingAdd daysAndNanos (saturate (months.toInt * (30 * dayMicros)))))
  | .intervalDayTime days milliseconds =>
    .ok (Bytes.ofInt64 (saturatingAdd (saturate (days.toInt * dayMicros))
      (saturate (milliseconds.toInt * 1000))))
  | .intervalYearMonth months => .ok (Bytes.ofInt64 (saturate (months.toInt * (30 * dayMicros))))
  | .other debug => unsupported ("scalar:" ++ debug)

def lowerBinaryOp : DfOp → Lowering BinaryOp
  | .eq => .ok .eq
  | .notEq => .ok .ne
  | .lt => .ok .lt
  | .ltEq => .ok .le
  | .gt => .ok .gt
  | .gtEq => .ok .ge
  | .plus => .ok .add
  | .minus => .ok .sub
  | .multiply => .ok .mul
  | .divide => .ok .div
  | .modulo => .ok .mod
  | .and => .ok .and
  | .or => .ok .or
  | .other debug => unsupported ("binary_op:" ++ debug)

def scalarFunctionName (rawName : String) : String :=
  match rawName with
  | "character_length" | "char_length" => "length"
  | "substr" => "substring"
  | "btrim" => "trim"
  | "position" => "strpos"
  | "datetrunc" => "date_trunc"
  | "extract" => "date_part"
  | "current_timestamp" => "now"
  | "today" => "current_date"
  | other => other.toLower

def scalarFunctions : List String :=
  ["regexp_replace", "split_part", "length", "replace", "upper", "lower", "substring", "trim",
    "ltrim", "rtrim", "concat", "concat_ws", "lpad", "rpad", "strpos", "coalesce", "nullif",
    "date_trunc", "date_part", "age", "to_char", "now", "current_date"]

/-- A cast to BIGINT is kept, another cast is dropped. -/
def lowerCast (dataType : DataType) (lowered : Expr) : Expr :=
  if dataType = .int64 then .scalarUdf "cast_int64" [lowered] else lowered

mutual

def lowerExpr (schema : DfSchema) : DfExpr → Lowering Expr
  | .column col => do
    let index ← resolveColumn schema col "column_resolution"
    pure (.column index)
  | .literal value => do
    let bytes ← encodeScalar value
    pure (.literal bytes)
  | .binaryExpr left op right => do
    let planOp ← lowerBinaryOp op
    let left ← lowerExpr schema left
    let right ← lowerExpr schema right
    pure (.binaryOp planOp left right)
  | .alias expr _ => lowerExpr schema expr
  | .cast expr dataType => do
    let lowered ← lowerExpr schema expr
    pure (lowerCast dataType lowered)
  | .tryCast expr dataType => do
    let lowered ← lowerExpr schema expr
    pure (lowerCast dataType lowered)
  | .case (some _) _ _ => unsupported "expr:Case(simple-form-base-expr)"
  | .case none whenThen elseExpr => do
    let branches ← lowerBranches schema whenThen
    let otherwise ← lowerElse schema elseExpr
    pure (.case branches otherwise)
  | .scalarFunction rawName args => do
    if scalarFunctionName rawName ∈ scalarFunctions then
      let lowered ← lowerExprs schema args
      pure (.scalarUdf (scalarFunctionName rawName) lowered)
    else unsupported ("expr:scalar_function:" ++ rawName)
  | .aggregateFunction _ _ _ => unsupported "expr:AggregateFunction"
  | .windowFunction _ => unsupported "expr:WindowFunction"
  | .other name => unsupported ("expr:" ++ name)

def lowerExprs (schema : DfSchema) : List DfExpr → Lowering (List Expr)
  | [] => .ok []
  | expr :: exprs => do
    let lowered ← lowerExpr schema expr
    let rest ← lowerExprs schema exprs
    pure (lowered :: rest)

def lowerBranches (schema : DfSchema) : List (DfExpr × DfExpr) → Lowering (List (Expr × Expr))
  | [] => .ok []
  | (condition, result) :: branches => do
    let condition ← lowerExpr schema condition
    let result ← lowerExpr schema result
    let rest ← lowerBranches schema branches
    pure ((condition, result) :: rest)

/-- A missing ELSE is the sentinel. -/
def lowerElse (schema : DfSchema) : Option DfExpr → Lowering Expr
  | some expr => lowerExpr schema expr
  | none => .ok (.literal (Bytes.ofInt64 caseMissingElseSentinel))

end

end RockStream.Sql
