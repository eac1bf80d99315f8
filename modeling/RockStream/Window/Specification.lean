import RockStream.Window.Law
import RockStream.Sql.Window
import RockStream.Sql.Meaning

/-!
Contract: PARTITION BY and ORDER BY through the lowering of a window expression.

Owns:
- `KeepsSpecification`: the lowered lists denote the SQL lists, and rows share a lowered
  partition exactly when they agree on every PARTITION BY expression;
- the theorem: this is so exactly for columns, and for PARTITION BY columns without NULL.

Does not own: the functions evaluated inside a partition.
-/

namespace RockStream

open Lib List WindowOp

variable {cell : Cell} {field : Field} {expr : DfExpr} {entry : QualifiedField}

variable {index : Nat} {cells : List Cell}

/-! ## Cells of a row -/

theorem Cell.get_of_int64 (isInt64 : cell.raw.dataType = .int64)
    (valid : cell.valid = true) : cell.get = some (.int64 cell.rawInt64) := by
  obtain ⟨value, raw, found⟩ := Cell.int64?_of_typed isInt64
  simp [Cell.get, Cell.rawInt64, valid, raw, found]

theorem Conforms.exists_cell {fields : List Field} (conforms : Conforms fields cells)
    (isField : fields[index]? = some field) :
    ∃ cell, cells[index]? = some cell ∧ field.Admits cell := by
  obtain ⟨inFields, rfl⟩ := List.getElem?_eq_some_iff.mp isField
  have inCells : index < cells.length := conforms.length_eq ▸ inFields
  exact ⟨cells[index], getElem?_eq_getElem inCells, conforms.get inFields inCells⟩

theorem Conforms.set {fields : List Field} (conforms : Conforms fields cells)
    (isField : fields[index]? = some field) (admits : field.Admits cell) :
    Conforms fields (cells.set index cell) := by
  induction conforms generalizing index with
  | nil => cases isField
  | cons own rest ih =>
    cases index with
    | zero =>
      cases isField
      exact .cons admits rest
    | succ index => exact .cons own (ih isField)

/-! ## The lowered specification -/

namespace Sql

variable {schema : DfSchema}

def DfSchema.fields (schema : DfSchema) : List Field := schema.map QualifiedField.field

open DfSchema

/-- A column denotes an expression: it has the expression's value in every row. -/
def Denotes [ColumnIndex] (meaning : Meaning schema) (index : Nat) (expr : DfExpr) : Prop :=
  ∀ cells, Conforms (DfSchema.fields schema) cells →
    meaning.eval expr (cells.map Cell.get) = (cells.map Cell.get)[index]?.join

/-- The operator puts two rows into one partition. -/
def SamePartition (op : WindowOp) (left right : List Cell) : Prop :=
  op.partitionKey (extractVals left op.nInputCols) =
    op.partitionKey (extractVals right op.nInputCols)

/-- Nothing of the specification is lost: the lowered lists denote the SQL lists, entry by entry,
and two rows share a partition exactly when they agree on every PARTITION BY expression. -/
structure KeepsSpecification [ColumnIndex] (meaning : Meaning schema) (call : WindowFunction DfExpr)
    (op : WindowOp) (expr : WindowExpr) : Prop where
  partitionLength : expr.partitionBy.length = call.partitionBy.length
  orderLength : expr.orderBy.length = call.orderBy.length
  partition : List.Forall₂ (Denotes meaning) expr.partitionBy call.partitionBy
  order : List.Forall₂ (fun index sort => Denotes meaning index sort.expr) expr.orderBy call.orderBy
  same : ∀ left right, Conforms (DfSchema.fields schema) left →
    Conforms (DfSchema.fields schema) right →
      (SamePartition op left right ↔ ∀ expr ∈ call.partitionBy,
        meaning.eval expr (left.map Cell.get) = meaning.eval expr (right.map Cell.get))

def IsColumn [ColumnIndex] (schema : DfSchema) (expr : DfExpr) : Prop :=
  (columnIndex? schema expr).isSome

def IsNotNullColumn [ColumnIndex] (schema : DfSchema) (expr : DfExpr) : Prop :=
  ∃ index entry, columnIndex? schema expr = some index ∧ schema[index]? = some entry ∧
    entry.field.nullable = false

theorem columnIndex?_eq_some [ColumnIndex] (found : columnIndex? schema expr = some index) :
    ∃ col, expr = .column col ∧ indexOfColumn schema col = some index := by
  unfold columnIndex? at found
  split at found
  · next col => exact ⟨col, rfl, found⟩
  · cases found

theorem columnIndex?_lt [ColumnIndex] (found : columnIndex? schema expr = some index) :
    index < schema.length := by
  obtain ⟨col, _, resolved⟩ := columnIndex?_eq_some found
  exact indexOfColumn_lt resolved

theorem denotes_of_columnIndex? [ColumnIndex] (meaning : Meaning schema)
    (found : columnIndex? schema expr = some index) : Denotes meaning index expr := by
  obtain ⟨col, rfl, resolved⟩ := columnIndex?_eq_some found
  exact fun cells _ => meaning.column resolved _

section KeptEntries

variable {α : Type} {index? : α → Option Nat} {items : List α}

/-- A conversion that drops no entry converts entry by entry. -/
theorem forall₂_filterMap (kept : ∀ item ∈ items, (index? item).isSome) :
    List.Forall₂ (fun index item => index? item = some index) (items.filterMap index?) items := by
  induction items with
  | nil => exact .nil
  | cons item items ih =>
    obtain ⟨index, found⟩ := Option.isSome_iff_exists.mp (kept item (by simp))
    rw [filterMap_cons, found]
    exact .cons found (ih fun other mem => kept other (by simp [mem]))

end KeptEntries

/-! ## Partitions -/

section Partitions

variable {op : WindowOp} {expr : WindowExpr} {left right : List Cell}

/-- The partition of a row is decided by the raw values of the lowered PARTITION BY columns. -/
theorem samePartition_iff (isFirst : op.windowExprs.head? = some expr)
    (width : op.nInputCols = schema.length) (leftFits : Conforms (fields schema) left)
    (rightFits : Conforms (fields schema) right) :
    SamePartition op left right ↔ ∀ index ∈ expr.partitionBy,
      columnOf schema.length (extractRowVals left) index =
        columnOf schema.length (extractRowVals right) index := by
  have whole : ∀ cells, Conforms (fields schema) cells →
      cells.length = schema.length ∧ extractVals cells op.nInputCols = extractRowVals cells := by
    intro cells conforms
    have length : cells.length = schema.length := by
      rw [conforms.length_eq, fields, length_map]
    refine ⟨length, ?_⟩
    rw [extractVals, take_of_length_le (by omega)]
  have key : ∀ cells, Conforms (fields schema) cells →
      op.partitionKey (extractVals cells op.nInputCols) = .ok (rowKey (expr.partitionBy.map
        (columnOf schema.length (extractRowVals cells)))) := by
    intro cells conforms
    obtain ⟨length, values⟩ := whole cells conforms
    have wide : (extractRowVals cells).length = op.nInputCols := by
      rw [extractRowVals, length_map, length, width]
    rw [values, partitionKey_of_length wide, partOf, keyOf, isFirst,
      width]
    rfl
  unfold SamePartition
  rw [key left leftFits, key right rightFits, Except.ok.injEq]
  refine ⟨fun same => map_inj_left.mp (rowKey_injective same), fun same => ?_⟩
  rw [map_inj_left.mpr same]

theorem columnOf_extractRowVals (length : cells.length = schema.length)
    (isCell : cells[index]? = some cell) :
    columnOf schema.length (extractRowVals cells) index = cell.rawInt64 := by
  obtain ⟨inside, found⟩ := List.getElem?_eq_some_iff.mp isCell
  unfold columnOf extractRowVals
  rw [if_pos (by omega), getD_eq_getElem?_getD, getElem?_map, isCell]
  rfl

theorem getElem?_fields (isEntry : schema[index]? = some entry) :
    (fields schema)[index]? = some entry.field := by
  rw [fields, getElem?_map, isEntry]
  rfl

/-- Two rows have the same raw value in a column without NULL exactly when they agree on it. -/
theorem IsNotNullColumn.agree_iff [ColumnIndex] {sqlExpr : DfExpr} (meaning : Meaning schema)
    (shape : Int64Shape (fields schema) schema.length)
    (notNullColumn : IsNotNullColumn schema sqlExpr)
    (found : columnIndex? schema sqlExpr = some index) (leftFits : Conforms (fields schema) left)
    (rightFits : Conforms (fields schema) right) :
    columnOf schema.length (extractRowVals left) index =
        columnOf schema.length (extractRowVals right) index ↔
      meaning.eval sqlExpr (left.map Cell.get) = meaning.eval sqlExpr (right.map Cell.get) := by
  obtain ⟨_, entry, again, isEntry, notNull⟩ := notNullColumn
  cases found.symm.trans again
  have read : ∀ cells, Conforms (fields schema) cells → ∃ cell : Cell,
      columnOf schema.length (extractRowVals cells) index = cell.rawInt64 ∧
        meaning.eval sqlExpr (cells.map Cell.get) = some (.int64 cell.rawInt64) := by
    intro cells conforms
    have length : cells.length = schema.length := by rw [conforms.length_eq, shape.length]
    obtain ⟨cell, isCell, _, nullable⟩ := conforms.exists_cell (getElem?_fields isEntry)
    have valid : cell.valid = true := by
      by_contra invalid
      rw [nullable (Bool.eq_false_iff.mpr invalid)] at notNull
      cases notNull
    have typed := int64Typed_of_conforms shape.typed conforms
    refine ⟨cell, columnOf_extractRowVals length isCell, ?_⟩
    rw [denotes_of_columnIndex? meaning found cells conforms, getElem?_map, isCell]
    exact Cell.get_of_int64 (typed cell (mem_of_getElem? isCell)) valid
  obtain ⟨leftCell, leftRead, leftValue⟩ := read left leftFits
  obtain ⟨rightCell, rightRead, rightValue⟩ := read right rightFits
  rw [leftRead, rightRead, leftValue, rightValue]
  simp

/-- NULL has a raw value: in a nullable column two rows differ that have the same raw values. -/
theorem exists_same_raw (shape : Int64Shape (fields schema) schema.length)
    (isEntry : schema[index]? = some entry) (nullable : entry.field.nullable = true) :
    ∃ left right, Conforms (fields schema) left ∧
      Conforms (fields schema) right ∧ extractRowVals left = extractRowVals right ∧
      (left.map Cell.get)[index]?.join ≠ (right.map Cell.get)[index]?.join := by
  let zeros := (List.replicate schema.length (0 : Int64)).map Cell.ofInt64
  have conforms : Conforms (fields schema) zeros :=
    conforms_ofInt64 shape length_replicate
  have inside := (List.getElem?_eq_some_iff.mp isEntry).1
  have isZero : zeros[index]? = some (Cell.ofInt64 0) := by
    rw [getElem?_map, getElem?_replicate_of_lt inside]
    rfl
  obtain ⟨insideZeros, isCell⟩ := List.getElem?_eq_some_iff.mp isZero
  have admits : entry.field.Admits ⟨.int64 0, false⟩ :=
    ⟨(shape.typed _ (mem_of_getElem? (getElem?_fields isEntry))).symm, fun _ => nullable⟩
  refine ⟨zeros.set index ⟨.int64 0, false⟩, zeros, conforms.set (getElem?_fields isEntry) admits,
    conforms, ?_, ?_⟩
  · have sameRaw : Cell.rawInt64 ⟨.int64 0, false⟩ = Cell.rawInt64 (Cell.ofInt64 0) := rfl
    unfold extractRowVals
    rw [map_set, sameRaw, ← isCell, ← map_set, set_getElem_self]
  · rw [getElem?_map, getElem?_map, isZero, getElem?_set_self insideZeros]
    simp [Cell.get, Cell.ofInt64]

end Partitions

/-- The lowering of an accepted window expression keeps its specification exactly when every
PARTITION BY and ORDER BY expression is a column of the input, and the PARTITION BY columns are
without NULL. Other expressions are dropped without an error, and the operator, which is given
integer columns only, reads raw integers. -/
theorem window_specification_kept_iff [ColumnIndex] (schema : DfSchema)
    (shape : Int64Shape (DfSchema.fields schema) schema.length) (meaning : Meaning schema)
    (call : WindowFunction DfExpr) (expr : WindowExpr)
    (accepted : lowerWindowExpr (.windowFunction call) schema = .ok expr) (op : WindowOp)
    (isFirst : op.windowExprs.head? = some expr) (width : op.nInputCols = schema.length) :
    KeepsSpecification meaning call op expr ↔
      (∀ sqlExpr ∈ call.partitionBy, IsNotNullColumn schema sqlExpr) ∧
        ∀ sort ∈ call.orderBy, IsColumn schema sort.expr := by
  obtain ⟨_, partitionBy, orderBy⟩ := lowerWindowExpr_eq_ok accepted
  constructor
  · intro keeps
    have partitionColumns : ∀ sqlExpr ∈ call.partitionBy, IsColumn schema sqlExpr := by
      have length := keeps.partitionLength
      rw [partitionBy] at length
      exact filterMap_length_eq_length.mp length
    have orderColumns : ∀ sort ∈ call.orderBy, IsColumn schema sort.expr := by
      have length := keeps.orderLength
      rw [orderBy] at length
      exact filterMap_length_eq_length.mp length
    refine ⟨fun sqlExpr member => ?_, orderColumns⟩
    obtain ⟨index, found⟩ := Option.isSome_iff_exists.mp (partitionColumns sqlExpr member)
    have isEntry := getElem?_eq_getElem (columnIndex?_lt found)
    refine ⟨index, _, found, isEntry, ?_⟩
    by_contra nullable
    obtain ⟨left, right, leftConforms, rightConforms, sameRaw, differ⟩ :=
      exists_same_raw shape isEntry (Bool.eq_true_of_not_eq_false nullable)
    have together : SamePartition op left right := by
      rw [samePartition_iff isFirst width leftConforms rightConforms, sameRaw]
      exact fun _ _ => rfl
    have agree := (keeps.same left right leftConforms rightConforms).mp together sqlExpr member
    rw [denotes_of_columnIndex? meaning found left leftConforms,
      denotes_of_columnIndex? meaning found right rightConforms] at agree
    exact differ agree
  · rintro ⟨partitionColumns, orderColumns⟩
    have partitionEntries : List.Forall₂ (fun index sqlExpr => columnIndex? schema sqlExpr =
        some index) expr.partitionBy call.partitionBy := by
      rw [partitionBy]
      refine forall₂_filterMap fun sqlExpr member => ?_
      obtain ⟨index, _, found, _⟩ := partitionColumns sqlExpr member
      rw [found]
      rfl
    have orderEntries : List.Forall₂ (fun index sort => columnIndex? schema sort.expr =
        some index) expr.orderBy call.orderBy := by
      rw [orderBy]
      exact forall₂_filterMap orderColumns
    refine ⟨partitionEntries.length_eq, orderEntries.length_eq,
      partitionEntries.imp fun _ _ => denotes_of_columnIndex? meaning,
      orderEntries.imp fun _ _ => denotes_of_columnIndex? meaning, ?_⟩
    intro left right leftConforms rightConforms
    rw [samePartition_iff isFirst width leftConforms rightConforms, partitionBy]
    simp only [mem_filterMap]
    constructor
    · intro same sqlExpr member
      obtain ⟨index, _, found, _⟩ := partitionColumns sqlExpr member
      exact ((partitionColumns sqlExpr member).agree_iff meaning shape found leftConforms
        rightConforms).mp (same index ⟨sqlExpr, member, found⟩)
    · rintro agree index ⟨sqlExpr, member, found⟩
      exact ((partitionColumns sqlExpr member).agree_iff meaning shape found leftConforms
        rightConforms).mpr (agree sqlExpr member)

/-- A table `t` with one column `a`, an integer without NULL. -/
def keyedSchema : DfSchema := [⟨some "t", ⟨"a", .int64, false⟩⟩]

def keyColumn : DfExpr := .column ⟨some "t", "a"⟩

/-- `t.a % 2`. -/
def keyParity : DfExpr := .binaryExpr keyColumn .modulo (.literal (.int64 2))

/-- `ROW_NUMBER() OVER (PARTITION BY expr)`. -/
def numberCall (expr : DfExpr) : WindowFunction DfExpr :=
  ⟨.windowUdf "row_number", [], [expr], [], .range, .preceding .null⟩

/-- The operator over `t`. -/
def numberOp (expr : WindowExpr) : WindowOp :=
  ⟨[⟨"a", .int64, false⟩, ⟨"rn", .int64, false⟩], [expr]⟩

/-- The meaning in which `t.a % 2` is the remainder. -/
def parityMeaning : Meaning keyedSchema :=
  Meaning.ofTable keyedSchema fun expr row =>
    match expr, row with
    | .binaryExpr (.column _) .modulo (.literal (.int64 divisor)), [some (.int64 value)] =>
      some (.int64 (value % divisor))
    | _, _ => none

theorem window_specification_kept_iff_sample :
    KeepsSpecification parityMeaning (numberCall keyColumn) (numberOp ⟨.rowNumber, [0], []⟩)
      ⟨.rowNumber, [0], []⟩ := by
  refine (window_specification_kept_iff keyedSchema ⟨rfl, by decide⟩ parityMeaning
    (numberCall keyColumn) ⟨.rowNumber, [0], []⟩ rfl (numberOp ⟨.rowNumber, [0], []⟩) rfl rfl).mpr
    ⟨?_, by simp [numberCall]⟩
  intro sqlExpr member
  rw [mem_singleton.mp member]
  exact ⟨0, ⟨some "t", ⟨"a", .int64, false⟩⟩, rfl, rfl, rfl⟩

/-- PARTITION BY an expression becomes one partition for all rows. -/
theorem partition_expression_dropped :
    lowerWindowExpr (.windowFunction (numberCall keyParity)) keyedSchema =
        .ok ⟨.rowNumber, [], []⟩ ∧
      SamePartition (numberOp ⟨.rowNumber, [], []⟩) [Cell.ofInt64 1] [Cell.ofInt64 2] ∧
      parityMeaning.eval keyParity [some (.int64 1)] ≠
        parityMeaning.eval keyParity [some (.int64 2)] :=
  ⟨rfl, rfl, by decide⟩

end Sql

end RockStream
