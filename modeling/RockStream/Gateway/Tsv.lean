import RockStream.Gateway.Source

/-!
Contract: rows as tab-separated texts (`rockstream-ops/src/sink.rs`,
`rockstream-gateway/src/server.rs`).

A stored row is the texts of its values with tabs between them, and `\N` for NULL. Nothing
is escaped. The reader cuts a stored row at its tabs.

Owns:
- `ColumnValue` and `columnValuesToTsvBytes`;
- how `tsv_to_record_batch` reads the columns that a `ColumnValue` can have;
- for which rows writing and reading gives the row back.

Does not own: columns of other types, whose reader is a parameter, and how `f64` is written
and read, which `FloatText` assumes to round trip.
-/

namespace RockStream

open Lib Loop List Cell

variable {number : Nat} {byte : UInt8} {schema : List Field} {tsv : Bytes}
  {others : DataType → Option Bytes → Except String Cell}

/-! ## Integers -/

def integerText (value : Int) : Bytes :=
  if value < 0 then 0x2D :: decimalText value.natAbs else decimalText value.natAbs

def digitValue (byte : UInt8) : Option Nat :=
  if 0x30 ≤ byte ∧ byte ≤ 0x39 then some (byte.toNat - 0x30) else none

def parseDigits (digits : Bytes) : Option Nat :=
  digits.foldlM (fun value byte => (digitValue byte).map fun digit => 10 * value + digit) 0

/-- The digits after the sign: there is at least one, and the value fits. -/
def parseMagnitude (negative : Bool) (digits : Bytes) : Option Int64 :=
  if digits = [] then none
  else do
    let magnitude ← parseDigits digits
    let value : Int := if negative then -magnitude else magnitude
    if InI64 value then some (Int64.ofInt value) else none

def parseI64 : Bytes → Option Int64
  | 0x2D :: digits => parseMagnitude true digits
  | 0x2B :: digits => parseMagnitude false digits
  | digits => parseMagnitude false digits

theorem digitValue_digitChar : ∀ digit < 10,
    digitValue (UInt8.ofNat (Nat.digitChar digit).toNat) = some digit := by
  decide

theorem decimalText_eq (number : Nat) : decimalText number =
    if number < 10 then [UInt8.ofNat number.digitChar.toNat]
    else decimalText (number / 10) ++ [UInt8.ofNat (number % 10).digitChar.toNat] := by
  unfold decimalText
  rw [Nat.toDigits_eq_if (by decide)]
  split
  · rfl
  · rw [map_append]
    rfl

theorem parseDigits_decimalText (number : Nat) :
    parseDigits (decimalText number) = some number := by
  induction number using Nat.strongRecOn with
  | ind number ih =>
    rw [decimalText_eq]
    split
    · next small =>
      rw [parseDigits, foldlM_cons, digitValue_digitChar number small]
      simp
    · next large =>
      have earlier := ih (number / 10) (by omega)
      rw [parseDigits] at earlier ⊢
      rw [foldlM_append, earlier]
      show ((digitValue _).map _ >>= _) = _
      rw [digitValue_digitChar _ (Nat.mod_lt _ (by decide))]
      show some (10 * (number / 10) + number % 10) = some number
      rw [Nat.div_add_mod]

theorem digit_of_mem_decimalText (mem : byte ∈ decimalText number) : 0x30 ≤ byte ∧ byte ≤ 0x39 := by
  have digits : ∀ digit < 10, 0x30 ≤ UInt8.ofNat (Nat.digitChar digit).toNat ∧
      UInt8.ofNat (Nat.digitChar digit).toNat ≤ 0x39 := by decide
  induction number using Nat.strongRecOn with
  | ind number ih =>
    rw [decimalText_eq] at mem
    split at mem
    · next small =>
      rw [mem_singleton.mp mem]
      exact digits number small
    · rcases mem_append.mp mem with earlier | last
      · exact ih (number / 10) (by omega) earlier
      · rw [mem_singleton.mp last]
        exact digits _ (Nat.mod_lt _ (by decide))

theorem decimalText_ne_nil (number : Nat) : decimalText number ≠ [] := by
  rw [decimalText_eq]
  split <;> simp

theorem parseI64_of_digits {digits : Bytes} (isDigit : ∀ byte ∈ digits, 0x30 ≤ byte ∧ byte ≤ 0x39) :
    parseI64 digits = parseMagnitude false digits := by
  unfold parseI64
  split
  · exact absurd (isDigit 0x2D (by simp)).1 (by decide)
  · exact absurd (isDigit 0x2B (by simp)).1 (by decide)
  · rfl

theorem parseMagnitude_decimalText {negative : Bool} {value : Int64}
    (isValue : (if negative then -(number : Int) else number) = value.toInt) :
    parseMagnitude negative (decimalText number) = some value := by
  have inside := Int64.toInt_inI64 value
  rw [parseMagnitude, if_neg (decimalText_ne_nil _), parseDigits_decimalText]
  show (if InI64 (if negative then -(number : Int) else number) then _ else none) = _
  rw [if_pos (isValue ▸ inside)]
  rw [isValue, Int64.ofInt_toInt]

theorem parseI64_integerText (value : Int64) : parseI64 (integerText value.toInt) = some value := by
  unfold integerText
  split
  · next negative =>
    refine parseMagnitude_decimalText ?_
    rw [if_pos rfl, Int.ofNat_natAbs_of_nonpos negative.le, neg_neg]
  · next nonnegative =>
    rw [parseI64_of_digits fun byte => digit_of_mem_decimalText]
    exact parseMagnitude_decimalText (Int.natAbs_of_nonneg (not_lt.mp nonnegative))

theorem mem_integerText {value : Int} (mem : byte ∈ integerText value) :
    byte = 0x2D ∨ 0x30 ≤ byte ∧ byte ≤ 0x39 := by
  unfold integerText at mem
  split at mem
  · rcases mem_cons.mp mem with isSign | isDigit
    · exact .inl isSign
    · exact .inr (digit_of_mem_decimalText isDigit)
  · exact .inr (digit_of_mem_decimalText mem)

/-! ## Values -/

/-- How `f64` values are written and read. A value stands for all payloads of NaN. -/
structure FloatText where
  Float : Type
  bits : Float → Bytes
  bits_injective : Function.Injective bits
  display : Float → Bytes
  parse : Bytes → Option Float
  parse_display : ∀ value, parse (display value) = some value
  noTab : ∀ value, (0x09 : UInt8) ∉ display value
  notNull : ∀ value, display value ≠ nullMarker

inductive ColumnValue (floats : FloatText) where
  | null
  | int64 (value : Int64)
  | utf8 (value : Text)
  | boolean (value : Bool)
  | float64 (value : floats.Float)

open ColumnValue

/-- The types of `BooleanArray` and `Float64Array`. -/
def booleanType : DataType := .other "Boolean"
def float64Type : DataType := .other "Float64"

def trueText : Bytes := [0x74, 0x72, 0x75, 0x65]
def falseText : Bytes := [0x66, 0x61, 0x6C, 0x73, 0x65]

section Floats

variable {floats : FloatText}

namespace ColumnValue

def text : ColumnValue floats → Bytes
  | null => nullMarker
  | int64 value => integerText value.toInt
  | utf8 value => value.bytes
  | boolean value => if value then trueText else falseText
  | float64 value => floats.display value

def value : ColumnValue floats → Option Value
  | null => none
  | int64 value => some (.int64 value)
  | utf8 value => some (.utf8 value)
  | boolean value => some (.other "Boolean" [if value then 1 else 0])
  | float64 value => some (.other "Float64" (floats.bits value))

def Fits (field : Field) : ColumnValue floats → Prop
  | null => field.nullable = true ∧
      (field.dataType = .int64 ∨ field.dataType = .utf8 ∨ field.dataType = booleanType ∨
        field.dataType = float64Type)
  | int64 _ => field.dataType = .int64
  | utf8 _ => field.dataType = .utf8
  | boolean _ => field.dataType = booleanType
  | float64 _ => field.dataType = float64Type

end ColumnValue

def columnValuesToTsvBytes (row : List (ColumnValue floats)) : Bytes :=
  joinTexts 0x09 (row.map ColumnValue.text)

/-! ## Columns -/

/-- `matches!(v.to_lowercase().as_str(), "true" | "t" | "1")`. -/
def parseBoolean (text : Bytes) : Bool :=
  toAsciiLowercase text = trueText ∨ toAsciiLowercase text = [0x74] ∨
    toAsciiLowercase text = [0x31]

/-- A slot of an array that is built from options; the raw value under NULL is the default. -/
def Cell.ofOption (default : Value) : Option Value → Cell
  | some value => ⟨value, true⟩
  | none => ⟨default, false⟩

section Read

variable (floats) (others : DataType → Option Bytes → Except String Cell)

/-- The slot that `tsv_to_record_batch` makes of the text of a column. A text that cannot be read is
NULL. -/
def parseColumn (dataType : DataType) (text : Option Bytes) : Except String Cell :=
  if dataType = .int64 then
    .ok (.ofOption (.int64 0) ((text.bind parseI64).map .int64))
  else if dataType = .utf8 then
    match text with
    | some text =>
      if bounded : text.length < 2 ^ 31 then .ok ⟨.utf8 ⟨text, bounded⟩, true⟩
      else .error "offset overflow"
    | none => .ok ⟨.utf8 ⟨[], by decide⟩, false⟩
  else if dataType = booleanType then
    .ok (.ofOption (.other "Boolean" [0]) (text.map fun text =>
      .other "Boolean" [if parseBoolean text then 1 else 0]))
  else if dataType = float64Type then
    .ok (.ofOption (.other "Float64" []) ((text.bind floats.parse).map fun value =>
      .other "Float64" (floats.bits value)))
  else others dataType text

def readTsv (schema : List Field) (tsv : Bytes) : Except String ArrowZSet := do
  let rows ← tsvToRecordBatch (parseColumn floats others) schema [(tsv, 1)]
  (ArrowZSet.tryNew schema rows).mapError fun _ => "RecordBatch::try_new"

end Read

/-! ## The round trip -/

/-- A text survives when it has no tab and is not the text of NULL. -/
def ColumnValue.Survives : ColumnValue floats → Prop
  | .utf8 text => (0x09 : UInt8) ∉ text.bytes ∧ text.bytes ≠ nullMarker
  | _ => True

theorem ColumnValue.noTab {value : ColumnValue floats} (survives : value.Survives) :
    (0x09 : UInt8) ∉ value.text := by
  cases value with
  | null => exact (by decide : (0x09 : UInt8) ∉ nullMarker)
  | int64 value =>
    intro mem
    rcases mem_integerText mem with isSign | ⟨isDigit, _⟩
    · exact absurd isSign (by decide)
    · exact absurd isDigit (by decide)
  | utf8 value => exact survives.1
  | boolean value =>
    cases value with
    | false => exact (by decide : (0x09 : UInt8) ∉ falseText)
    | true => exact (by decide : (0x09 : UInt8) ∉ trueText)
  | float64 value => exact floats.noTab value

theorem ColumnValue.text_ne_nullMarker {value : ColumnValue floats} (survives : value.Survives)
    (present : value ≠ .null) : value.text ≠ nullMarker := by
  cases value with
  | null => exact absurd rfl present
  | int64 value =>
    intro isMarker
    have mem : (0x5C : UInt8) ∈ integerText value.toInt := by
      rw [show integerText value.toInt = nullMarker from isMarker]
      decide
    rcases mem_integerText mem with isSign | ⟨_, isDigit⟩
    · exact absurd isSign (by decide)
    · exact absurd isDigit (by decide)
  | utf8 value => exact survives.2
  | boolean value =>
    cases value with
    | false => exact (by decide : falseText ≠ nullMarker)
    | true => exact (by decide : trueText ≠ nullMarker)
  | float64 value => exact floats.notNull value

section Read

/-- What the reader makes of the text of a column: `\N` is no text. -/
def keptText (text : Bytes) : Option Bytes := (some text).filter fun text => text ≠ nullMarker

theorem keptText_text {value : ColumnValue floats} (survives : value.Survives)
    (present : value ≠ .null) : keptText value.text = some value.text :=
  Option.filter_some_pos (by simpa using value.text_ne_nullMarker survives present)

theorem parseColumn_text {field : Field} {value : ColumnValue floats} (fits : value.Fits field)
    (survives : value.Survives) :
    ∃ cell, parseColumn floats others field.dataType (keptText value.text) = .ok cell ∧
      cell.get = value.value ∧ field.Admits cell := by
  cases value with
  | null =>
    obtain ⟨nullable, isType⟩ := fits
    rcases isType with isType | isType | isType | isType
    all_goals
      rw [isType]
      exact ⟨_, rfl, rfl, isType.symm, fun _ => nullable⟩
  | int64 value =>
    rw [keptText_text survives (by simp), show field.dataType = .int64 from fits]
    refine ⟨⟨.int64 value, true⟩, ?_, rfl, fits.symm, by simp⟩
    show Except.ok (ofOption (.int64 0) ((parseI64 (integerText value.toInt)).map .int64)) = _
    rw [parseI64_integerText]
    rfl
  | utf8 value =>
    rw [keptText_text survives (by simp), show field.dataType = .utf8 from fits]
    refine ⟨⟨.utf8 value, true⟩, ?_, rfl, fits.symm, by simp⟩
    show (if bounded : value.bytes.length < 2 ^ 31 then _ else _) = _
    rw [dif_pos value.bounded]
    rfl
  | boolean value =>
    rw [keptText_text survives (by simp), show field.dataType = booleanType from fits]
    refine ⟨⟨.other "Boolean" [if value then 1 else 0], true⟩, ?_, rfl, fits.symm, by simp⟩
    cases value <;> rfl
  | float64 value =>
    rw [keptText_text survives (by simp), show field.dataType = float64Type from fits]
    refine ⟨⟨.other "Float64" (floats.bits value), true⟩, ?_, rfl, fits.symm, by simp⟩
    show Except.ok (ofOption (.other "Float64" []) ((floats.parse (floats.display value)).map
      fun value => .other "Float64" (floats.bits value))) = _
    rw [floats.parse_display]
    rfl

theorem parseColumn_utf8_eq {text : Option Bytes} {cell : Cell} {value : Text}
    (parsed : parseColumn floats others .utf8 text = .ok cell)
    (denotes : cell.get = some (.utf8 value)) : text = some value.bytes := by
  cases text with
  | none =>
    cases parsed
    cases denotes
  | some text =>
    change (if bounded : text.length < 2 ^ 31 then _ else _) = _ at parsed
    split at parsed
    · cases parsed
      cases denotes
      rfl
    · cases parsed

theorem mapM_parseColumn {row : List (ColumnValue floats)}
    (fits : List.Forall₂ (fun field value => ColumnValue.Fits field value) schema row)
    (survive : ∀ value ∈ row, value.Survives) {before : List Bytes}
    (cut : tsv.splitOn 0x09 = before ++ row.map text) :
    ∃ cells, (schema.zipIdx before.length).mapM (fun column =>
        parseColumn floats others column.1.dataType (tsvField tsv column.2)) = .ok cells ∧
      cells.map get = row.map value ∧ Conforms schema cells := by
  induction fits generalizing before with
  | nil => exact ⟨[], rfl, rfl, .nil⟩
  | @cons field value schema row fits _ ih =>
    have isText : tsvField tsv before.length = keptText value.text := by
      rw [tsvField, cut, getElem?_append_right le_rfl, Nat.sub_self]
      rfl
    obtain ⟨cell, parsed, denotes, admits⟩ : ∃ cell, parseColumn floats others field.dataType
        (keptText value.text) = .ok cell ∧ cell.get = value.value ∧ field.Admits cell :=
      parseColumn_text fits (survive value (by simp))
    have nextCut : tsv.splitOn 0x09 = (before ++ [value.text]) ++ row.map text := by
      rw [cut]
      simp
    obtain ⟨cells, mapped, denote, conforms⟩ := ih
      (fun other mem => survive other (by simp [mem])) nextCut
    refine ⟨cell :: cells, ?_, by rw [map_cons, map_cons, denotes, denote],
      .cons admits conforms⟩
    rw [length_append, length_singleton] at mapped
    rw [zipIdx_cons, mapM_cons]
    refine bind_eq_ok.mpr ⟨cell, ?_, bind_eq_ok.mpr ⟨cells, mapped, rfl⟩⟩
    rw [isText]
    exact parsed

end Read

theorem notMem_of_mem_splitOn {separator : UInt8} {text piece : Bytes}
    (mem : piece ∈ text.splitOn separator) : separator ∉ piece := by
  induction isLength : text.length using Nat.strongRecOn generalizing text with
  | ind length ih =>
    by_cases inside : separator ∈ text
    · obtain ⟨first, rest, rfl, absent⟩ := eq_append_cons_of_mem inside
      rw [splitOn_append_cons_self_of_not_mem absent] at mem
      rcases mem_cons.mp mem with rfl | later
      · exact absent
      · exact ih rest.length (by simp [← isLength]; omega) later rfl
    · rw [splitOn_eq_singleton inside, mem_singleton] at mem
      exact mem ▸ inside

theorem readTsv_of_survive {row : List (ColumnValue floats)}
    (fits : List.Forall₂ (fun field value => ColumnValue.Fits field value) schema row)
    (columns : row ≠ []) (survive : ∀ value ∈ row, value.Survives) :
    ∃ batch, readTsv floats others schema (columnValuesToTsvBytes row) = .ok batch ∧
      batch.rows.map (fun row => row.1.map get) = [row.map value] := by
  have cut : (columnValuesToTsvBytes row).splitOn 0x09 = [] ++ row.map text := by
    refine splitOn_intercalate _ (fun text mem => ?_) (by simpa using columns)
    obtain ⟨value, inRow, rfl⟩ := mem_map.mp mem
    exact value.noTab (survive value inRow)
  obtain ⟨cells, mapped, denote, conforms⟩ : ∃ cells, (schema.zipIdx 0).mapM (fun column =>
      parseColumn floats others column.1.dataType
        (tsvField (columnValuesToTsvBytes row) column.2)) = .ok cells ∧
      cells.map get = row.map value ∧ Conforms schema cells :=
    mapM_parseColumn fits survive cut
  have columnwise : ∃ arrays, schema.zipIdx.mapM (fun column =>
      [(columnValuesToTsvBytes row, (1 : Int))].mapM fun stored =>
        parseColumn floats others column.1.dataType (tsvField stored.1 column.2)) = .ok arrays := by
    refine ⟨cells.map fun cell => [cell], mapM_eq_ok.mpr ?_⟩
    refine forall₂_map_right_iff.mpr ((mapM_eq_ok.mp mapped).imp fun column cell parsed => ?_)
    exact bind_eq_ok.mpr ⟨cell, parsed, rfl⟩
  obtain ⟨arrays, built⟩ := columnwise
  have nonempty : schema ≠ [] := by
    rintro rfl
    cases fits
    exact columns rfl
  have rows : tsvToRecordBatch (parseColumn floats others) schema
      [(columnValuesToTsvBytes row, 1)] = .ok [(cells, 1)] := by
    refine bind_eq_ok.mpr ⟨arrays, built, ?_⟩
    exact bind_eq_ok.mpr ⟨(cells, 1), bind_eq_ok.mpr ⟨cells, mapped, rfl⟩, rfl⟩
  refine ⟨⟨schema, [(cells, 1)], by simpa using conforms⟩, ?_, by simp [denote]⟩
  refine bind_eq_ok.mpr ⟨_, rows, ?_⟩
  rw [ArrowZSet.tryNew_of_conforms nonempty (by simpa using conforms)]
  rfl

theorem survive_of_readTsv {row : List (ColumnValue floats)}
    (fits : List.Forall₂ (fun field value => ColumnValue.Fits field value) schema row)
    {batch : ArrowZSet} (read : readTsv floats others schema tsv = .ok batch)
    (denotes : batch.rows.map (fun row => row.1.map get) = [row.map value]) :
    row ≠ [] ∧ ∀ value ∈ row, value.Survives := by
  obtain ⟨rows, parsed, built⟩ := bind_eq_ok.mp read
  have made := mapError_eq_ok.mp built
  obtain ⟨_, _, parsed⟩ := bind_eq_ok.mp parsed
  obtain ⟨⟨cells, weight⟩, rowParsed, ended⟩ := bind_eq_ok.mp parsed
  cases ended
  obtain ⟨parsedCells, mapped, ended⟩ := bind_eq_ok.mp rowParsed
  cases ended
  have denote : cells.map get = row.map value := by
    simpa [(ArrowZSet.tryNew_eq_ok made).2] using denotes
  constructor
  · rintro rfl
    cases fits
    cases made
  · intro value mem
    cases value with
    | utf8 text =>
      obtain ⟨index, inRow, isText⟩ := mem_iff_getElem.mp mem
      obtain ⟨length, fitsAt⟩ := forall₂_iff_get.mp fits
      have inSchema : index < schema.length := by omega
      have isUtf8 : schema[index].dataType = .utf8 := by
        have fitsHere := fitsAt index inSchema inRow
        rw [get_eq_getElem, get_eq_getElem, isText] at fitsHere
        exact fitsHere
      -- the slot of the column was read from the part of the text at its index
      have isSlot : (cells.map get)[index]? = some (some (.utf8 text)) := by
        rw [denote, getElem?_map, getElem?_eq_getElem inRow, isText]
        rfl
      rw [getElem?_map] at isSlot
      obtain ⟨cell, isCell, denotesText⟩ := Option.map_eq_some_iff.mp isSlot
      have isColumn : schema.zipIdx[index]? = some (schema[index], index) := by
        simp [getElem?_zipIdx, getElem?_eq_getElem inSchema]
      have parsedText := getElem_of_mapM_eq_ok mapped isColumn isCell
      rw [isUtf8] at parsedText
      have isField := parseColumn_utf8_eq parsedText denotesText
      obtain ⟨isPiece, kept⟩ := Option.filter_eq_some_iff.mp isField
      exact ⟨notMem_of_mem_splitOn (mem_of_getElem? isPiece), by simpa using kept⟩
    | null => trivial
    | int64 value => trivial
    | boolean value => trivial
    | float64 value => trivial

def ColumnValue.ofText (floats : FloatText) : Option Text → ColumnValue floats
  | some text => .utf8 text
  | none => .null

/-- Replicated rows are stored in the form of view rows. -/
theorem RelationRoute.row_eq (floats : FloatText) (route : RelationRoute)
    (texts : List (Option Text))
    (kind : String) (arity : texts.length = route.columns.length) :
    (route.row (some (texts.map (Option.map Text.bytes))) kind).toOption.map Prod.fst =
      some (columnValuesToTsvBytes (texts.map (ofText floats))) := by
  have sameTexts : (texts.map (Option.map Text.bytes)).map (fun value => value.getD nullMarker) =
      (texts.map (ofText floats)).map text := by
    rw [map_map, map_map]
    refine map_congr_left fun text _ => ?_
    cases text <;> rfl
  unfold RelationRoute.row columnValuesToTsvBytes
  dsimp only
  rw [if_neg (by simpa using arity), sameTexts]
  rfl

end Floats

/-! ## Rows with tabs -/

/-- A type with one value, written as `0`. -/
def zeroFloat : FloatText where
  Float := Unit
  bits := fun _ => []
  bits_injective := fun _ _ _ => rfl
  display := fun _ => [0x30]
  parse := fun _ => some ()
  parse_display := fun _ => rfl
  noTab := by decide
  notNull := by decide

def noColumn (_ : DataType) (_ : Option Bytes) : Except String Cell := .error "unsupported"

/-- The texts `a`, `a` tab `b`, and `\N`. -/
def letterText : Text := ⟨[0x61], by decide⟩
def tabText : Text := ⟨[0x61, 0x09, 0x62], by decide⟩
def nullText : Text := ⟨[0x5C, 0x4E], by decide⟩

def nameFields : List Field := [⟨"id", .int64, true⟩, ⟨"name", .utf8, true⟩]

def nameRow (name : Text) : List (ColumnValue zeroFloat) := [.int64 (-7), .utf8 name]

end RockStream
