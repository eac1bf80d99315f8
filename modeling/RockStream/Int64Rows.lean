import RockStream.Arrow

/-!
Contract: rows of nullable 64-bit integers.

Owns:
- `Int64Row`, the values of a row of Int64 slots, its cells and the row it denotes;
- `Int64Typed`, and the reading of typed cells as such values;
- `Int64Shape`, a number of Int64 columns.

Does not own: any encoding of a row.
-/

namespace RockStream

abbrev Int64Row := List (Option Int64)

def Cell.int64Value (cell : Cell) : Option Int64 :=
  if cell.valid then cell.int64? else none

def Int64Row.cells (values : Int64Row) : List Cell := values.map Cell.ofInt64?

def Int64Row.toRow (values : Int64Row) : Row := values.map (Option.map .int64)

theorem Int64Row.get_cells (values : Int64Row) :
    (Int64Row.cells values).map Cell.get = Int64Row.toRow values := by
  simp [Int64Row.cells, Int64Row.toRow, Function.comp_def]

theorem Int64Row.toRow_injective {left right : Int64Row}
    (same : Int64Row.toRow left = Int64Row.toRow right) : left = right := by
  refine List.map_injective_iff.mpr ?_ same
  exact Option.map_injective fun first second equal => by simpa using equal

theorem Int64Row.toRow_append (left right : Int64Row) :
    Int64Row.toRow (left ++ right) = Int64Row.toRow left ++ Int64Row.toRow right :=
  List.map_append

theorem Int64Row.toRow_nulls (count : Nat) :
    Int64Row.toRow (List.replicate count none) = List.replicate count none := by
  simp [Int64Row.toRow]

def Int64Typed (cells : List Cell) : Prop := ∀ cell ∈ cells, cell.raw.dataType = .int64

theorem Cell.int64?_of_typed {cell : Cell} (typed : cell.raw.dataType = .int64) :
    ∃ value, cell.raw = .int64 value ∧ cell.int64? = some value := by
  unfold Cell.int64?
  cases raw : cell.raw with
  | int64 value => exact ⟨value, rfl, rfl⟩
  | _ =>
    rw [raw] at typed
    cases typed

theorem get_of_typed {cells : List Cell} (typed : Int64Typed cells) :
    cells.map Cell.get = Int64Row.toRow (cells.map Cell.int64Value) := by
  unfold Int64Row.toRow
  rw [List.map_map]
  apply List.map_congr_left
  intro cell mem
  obtain ⟨value, raw, found⟩ := Cell.int64?_of_typed (typed cell mem)
  cases valid : cell.valid <;> simp [Cell.get, Cell.int64Value, raw, found, valid]

theorem int64Typed_of_conforms {fields : List Field} {cells : List Cell}
    (typed : ∀ field ∈ fields, field.dataType = .int64) (conforms : Conforms fields cells) :
    Int64Typed cells := by
  induction conforms with
  | nil => simp [Int64Typed]
  | cons admits _ ih =>
    have rest := ih fun other mem => typed other (by simp [mem])
    intro cell mem
    rcases List.mem_cons.mp mem with rfl | inRest
    · rw [admits.1, typed _ (by simp)]
    · exact rest cell inRest

structure Int64Shape (fields : List Field) (width : Nat) : Prop where
  length : fields.length = width
  typed : ∀ field ∈ fields, field.dataType = .int64

instance (fields : List Field) (width : Nat) : Decidable (Int64Shape fields width) :=
  decidable_of_iff (_ ∧ _) ⟨fun both => ⟨both.1, both.2⟩, fun shape => ⟨shape.1, shape.2⟩⟩

end RockStream
