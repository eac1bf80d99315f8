import RockStream.Exec
import RockStream.Lib.Bytes
import RockStream.Lib.Weighted

/-!
Contract: record batches with row weights.

An Arrow array stores a raw value in every slot and a validity bit beside it;
`array.value(i)` reads the raw value whether or not the slot is valid. A cell keeps
both, so that a function which forgets the validity bit is modelled as it is.
Batches are row-major here: a column-wise construction with ragged columns is a
list of rows with a row of the wrong width.

Owns:
- `DataType`, `Value`, `Cell`, `Field`, and `Conforms`, what `RecordBatch::try_new`
  checks of one row;
- `ArrowZSet`, which carries the conformance of its rows;
- `valued`, the weighted rows a batch denotes, where an invalid slot is NULL.

Does not own: arrays of types that no operator reads, and the `frontier` field of
a batch, which no modelled operator reads or sets.
-/

namespace RockStream

open Lib

variable {batches others : List ArrowZSet}

/-- The Arrow types that the operators tell apart. -/
inductive DataType where
  | int64
  | utf8
  | decimal128 (precision : Nat) (scale : Int)
  | other (name : String)
deriving DecidableEq, Repr

def DataType.debug : DataType → String
  | .int64 => "Int64"
  | .utf8 => "Utf8"
  | .decimal128 precision scale => s!"Decimal128({precision}, {scale})"
  | .other name => name

/-- The text of one `StringArray` slot. Offsets of the array are `i32`. -/
@[ext] structure Text where
  bytes : Bytes
  bounded : bytes.length < 2 ^ 31
deriving DecidableEq

inductive Value where
  | int64 (value : Int64)
  | utf8 (value : Text)
  | decimal128 (precision : Nat) (scale : Int) (value : Int)
  | other (name : String) (value : Bytes)
deriving DecidableEq

/-- The type of the array a raw slot stands in. -/
def Value.dataType : Value → DataType
  | .int64 _ => .int64
  | .utf8 _ => .utf8
  | .decimal128 precision scale _ => .decimal128 precision scale
  | .other name _ => .other name

structure Cell where
  raw : Value
  valid : Bool
deriving DecidableEq

/-- What a slot denotes: `none` is NULL. -/
def Cell.get (cell : Cell) : Option Value :=
  if cell.valid then some cell.raw else none

/-- `Int64Array::value`: the raw value, whatever the validity bit says. -/
def Cell.int64? (cell : Cell) : Option Int64 :=
  match cell.raw with
  | .int64 value => some value
  | _ => none

def Cell.ofInt64 (value : Int64) : Cell := ⟨.int64 value, true⟩

/-- An Int64 slot built from an `Option`; a NULL slot holds the raw value zero. -/
def Cell.ofInt64? : Option Int64 → Cell
  | some value => ⟨.int64 value, true⟩
  | none => ⟨.int64 0, false⟩

@[simp] theorem Cell.get_ofInt64 (value : Int64) :
    (Cell.ofInt64 value).get = some (.int64 value) := rfl

@[simp] theorem Cell.get_ofInt64? (value : Option Int64) :
    (Cell.ofInt64? value).get = value.map .int64 := by
  cases value <;> rfl

structure Field where
  name : String
  dataType : DataType
  nullable : Bool
deriving DecidableEq, Repr

/-- A slot fits a field: the types agree, and NULL stands in nullable columns only. -/
def Field.Admits (field : Field) (cell : Cell) : Prop :=
  cell.raw.dataType = field.dataType ∧ (cell.valid = false → field.nullable = true)

instance (field : Field) (cell : Cell) : Decidable (field.Admits cell) := by
  unfold Field.Admits
  infer_instance

/-- What `RecordBatch::try_new` requires of one row. -/
def Conforms (fields : List Field) (cells : List Cell) : Prop :=
  List.Forall₂ Field.Admits fields cells

instance (fields : List Field) (cells : List Cell) : Decidable (Conforms fields cells) :=
  inferInstanceAs (Decidable (List.Forall₂ Field.Admits fields cells))

theorem Conforms.length_eq {fields : List Field} {cells : List Cell}
    (conforms : Conforms fields cells) : cells.length = fields.length :=
  (List.Forall₂.length_eq conforms).symm

abbrev Row := List (Option Value)

/-- Weighted (key, value) pairs, the input of the grouped aggregates. -/
abbrev Pairs := List ((Int64 × Int64) × Int)

def denote (rows : List (List Cell × Int)) : List (Row × Int) :=
  rows.map fun row => (row.1.map Cell.get, row.2)

@[simp] theorem denote_append (left right : List (List Cell × Int)) :
    denote (left ++ right) = denote left ++ denote right :=
  List.map_append

theorem weight_denote (rows : List (List Cell × Int)) (value : Row) :
    Weighted.weight (denote rows) value =
      Weighted.integrate (fun cells => if cells.map Cell.get = value then 1 else 0) rows :=
  Weighted.integrate_map _ _ rows

/-- A Z-set delta batch: weighted rows under one schema. -/
structure ArrowZSet where
  fields : List Field
  rows : List (List Cell × Int)
  conforms : ∀ row ∈ rows, Conforms fields row.1

namespace ArrowZSet

/-- `RecordBatch::try_new` followed by `ArrowZSet::new`. A batch without columns
has no row count, which Arrow refuses. -/
def tryNew (fields : List Field) (rows : List (List Cell × Int)) : Exec ArrowZSet :=
  if conforms : fields ≠ [] ∧ ∀ row ∈ rows, Conforms fields row.1 then
    .ok ⟨fields, rows, conforms.2⟩
  else
    .error (.err .arrow)

theorem tryNew_eq_ok {fields : List Field} {rows : List (List Cell × Int)} {batch : ArrowZSet}
    (built : tryNew fields rows = .ok batch) : batch.fields = fields ∧ batch.rows = rows := by
  unfold tryNew at built
  split at built
  · cases built
    exact ⟨rfl, rfl⟩
  · cases built

theorem tryNew_of_conforms {fields : List Field} {rows : List (List Cell × Int)}
    (columns : fields ≠ []) (conforms : ∀ row ∈ rows, Conforms fields row.1) :
    tryNew fields rows = .ok ⟨fields, rows, conforms⟩ :=
  dif_pos ⟨columns, conforms⟩

def empty (fields : List Field) : Exec ArrowZSet :=
  if fields = [] then
    .error (.panicked "empty batch")
  else
    .ok ⟨fields, [], by simp⟩

/-- A batch of two nullable Int64 columns. -/
def ofPairs (rows : List ((Option Int64 × Option Int64) × Int)) : ArrowZSet where
  fields := [⟨"k", .int64, true⟩, ⟨"v", .int64, true⟩]
  rows := rows.map fun row => ([Cell.ofInt64? row.1.1, Cell.ofInt64? row.1.2], row.2)
  conforms := by
    intro row mem
    obtain ⟨⟨⟨key, value⟩, weight⟩, _, rfl⟩ := List.mem_map.mp mem
    cases key <;> cases value <;> simp [Conforms, Field.Admits, Cell.ofInt64?, Value.dataType]

def valued (batch : ArrowZSet) : List (Row × Int) := denote batch.rows

theorem valued_empty {fields : List Field} {batch : ArrowZSet} (built : empty fields = .ok batch) :
    batch.valued = [] := by
  unfold empty at built
  split at built
  · cases built
  · cases built
    rfl

theorem flatMap_valued (batches : List ArrowZSet) :
    batches.flatMap valued = denote (batches.flatMap rows) := by
  unfold valued denote
  rw [List.map_flatMap]

/-- `concat_zsets`: drop the batches without rows, then concatenate under the first
remaining schema. -/
def concatZsets (batches : List ArrowZSet) (emptySchema : List Field) : Exec ArrowZSet :=
  match batches.filter fun batch => !batch.rows.isEmpty with
  | [] => empty emptySchema
  | [batch] => .ok batch
  | first :: rest => tryNew first.fields ((first :: rest).flatMap ArrowZSet.rows)

private theorem flatMap_rows_filter (batches : List ArrowZSet) :
    (batches.filter fun batch => !batch.rows.isEmpty).flatMap ArrowZSet.rows =
      batches.flatMap ArrowZSet.rows := by
  induction batches with
  | nil => rfl
  | cons batch batches ih =>
    by_cases hollow : batch.rows = [] <;> simp [hollow, ih]

theorem concatZsets_rows {emptySchema : List Field} {result : ArrowZSet}
    (done : concatZsets batches emptySchema = .ok result) :
    result.rows = batches.flatMap ArrowZSet.rows := by
  rw [← flatMap_rows_filter]
  unfold concatZsets at done
  split at done
  · next kept =>
    rw [kept]
    unfold empty at done
    split at done
    · cases done
    · cases done
      rfl
  · next batch kept =>
    rw [kept]
    cases done
    simp
  · next first rest _ kept =>
    rw [kept]
    exact (tryNew_eq_ok done).2

theorem concatZsets_of_fields {fields : List Field} (columns : fields ≠ [])
    (sameFields : ∀ batch ∈ batches, batch.fields = fields) :
    ∃ result, concatZsets batches fields = .ok result ∧ result.fields = fields := by
  have keptFields : ∀ batch ∈ batches.filter fun batch => !batch.rows.isEmpty,
      batch.fields = fields := fun batch mem => sameFields batch (List.mem_of_mem_filter mem)
  unfold concatZsets
  split
  · exact ⟨_, if_neg columns, rfl⟩
  · next batch kept => exact ⟨batch, rfl, keptFields batch (by rw [kept]; simp)⟩
  · next first rest _ kept =>
    rw [kept] at keptFields
    have firstFields : first.fields = fields := keptFields first (by simp)
    have conforming : ∀ row ∈ (first :: rest).flatMap ArrowZSet.rows,
        Conforms first.fields row.1 := by
      intro row mem
      obtain ⟨batch, isKept, inBatch⟩ := List.mem_flatMap.mp mem
      rw [firstFields, ← keptFields batch isKept]
      exact batch.conforms row inBatch
    exact ⟨_, tryNew_of_conforms (by rw [firstFields]; exact columns) conforming, firstFields⟩

/-! ## Batches with the same rows in another order -/

/-- The same schema and the same weighted rows, in some order. -/
def Alike (first second : ArrowZSet) : Prop :=
  first.fields = second.fields ∧ first.rows.Perm second.rows

theorem Alike.refl (batch : ArrowZSet) : Alike batch batch := ⟨rfl, .refl _⟩

theorem tryNew_simulates (fields : List Field) {rows others : List (List Cell × Int)}
    (perm : rows.Perm others) :
    Lib.Simulates Alike (tryNew fields rows) (tryNew fields others) := by
  unfold tryNew
  intro batch built
  split at built
  · next conforms =>
    cases built
    have conforms' : fields ≠ [] ∧ ∀ row ∈ others, Conforms fields row.1 :=
      ⟨conforms.1, fun row mem => conforms.2 row (perm.mem_iff.mpr mem)⟩
    exact ⟨_, dif_pos conforms', rfl, perm⟩
  · cases built

private theorem alike_filter (alike : List.Forall₂ Alike batches others) :
    List.Forall₂ Alike (batches.filter fun batch => !batch.rows.isEmpty)
      (others.filter fun batch => !batch.rows.isEmpty) := by
  induction alike with
  | nil => exact .nil
  | cons head _ ih =>
    rw [List.filter_cons, List.filter_cons, head.2.isEmpty_eq]
    split
    · exact .cons head ih
    · exact ih

theorem perm_flatMap_rows (alike : List.Forall₂ Alike batches others) :
    (batches.flatMap rows).Perm (others.flatMap rows) := by
  induction alike with
  | nil => exact .refl _
  | cons head _ ih => exact head.2.append ih

theorem concatZsets_simulates (emptySchema : List Field)
    (alike : List.Forall₂ Alike batches others) :
    Lib.Simulates Alike (concatZsets batches emptySchema) (concatZsets others emptySchema) := by
  have kept := alike_filter alike
  unfold concatZsets
  generalize batches.filter (fun batch => !batch.rows.isEmpty) = keptBatches at kept ⊢
  generalize others.filter (fun batch => !batch.rows.isEmpty) = keptOthers at kept ⊢
  cases kept with
  | nil => exact Lib.Simulates.refl Alike.refl _
  | cons head tail =>
    cases tail with
    | nil => exact Lib.Simulates.ok head
    | cons second rest =>
      simp only
      rw [head.1]
      exact tryNew_simulates _ (perm_flatMap_rows (.cons head (.cons second rest)))

end ArrowZSet

end RockStream
