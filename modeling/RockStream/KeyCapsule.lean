import RockStream.Arrow

/-!
Contract: the canonical typed join key (`rockstream-types/src/key_capsule.rs`).

A key tuple is encoded as one frame, or as a composite frame around the frames of
its components. The length of the composite frame is never read back, so it may wrap;
the lengths of the component frames are, and they fit 32 bits.

Owns:
- `KeyValue`, `KeyCapsule` and their constructors from values and from cells;
- `containsNull`, which scans the encoded frames, and its agreement with the values;
- the injectivity of the encoding over tuples of any arity.

Does not own: partitioning or storage keys built from a capsule.
-/

namespace RockStream

open Lib Loop Lib.Bytes List

variable {fuel : Nat} {values : List KeyValue} {value : KeyValue}

/-- FNV-1a over 128 bits, wrapping (`stable_hash` and the loop of `stable_row_id`). -/
def fnv1a128 (bytes : Bytes) : BitVec 128 :=
  bytes.foldl (fun hash byte =>
    (hash ^^^ BitVec.ofNat 128 byte.toNat) * BitVec.ofNat 128 309485009821345068724781371)
    (BitVec.ofNat 128 144066263297769815596495629667062367629)

def NULL_TAG : UInt8 := 0
def INT64_TAG : UInt8 := 1
def UTF8_TAG : UInt8 := 2
def COMPOSITE_TAG : UInt8 := 3

inductive KeyValue where
  | null
  | int64 (value : Int64)
  | utf8 (value : Bytes)
deriving DecidableEq

open KeyValue

inductive KeyCapsuleError where
  | unsupportedType (dataType : String)
  | invalidEncoding
deriving DecidableEq

def DataType.display : DataType → String
  | .int64 => "Int64"
  | .utf8 => "Utf8"
  | .decimal128 precision scale => s!"Decimal128({precision}, {scale})"
  | .other name => name

def KeyCapsuleError.display : KeyCapsuleError → String
  | .unsupportedType dataType => s!"unsupported key type {dataType}"
  | .invalidEncoding => "invalid key capsule encoding"

/-- A capsule; its hash is always that of its bytes. -/
structure KeyCapsule where
  typedBytes : Bytes
  stableHash : BitVec 128
  hashed : stableHash = fnv1a128 typedBytes

open KeyCapsule

theorem KeyCapsule.eq_of_typedBytes {left right : KeyCapsule}
    (same : left.typedBytes = right.typedBytes) : left = right := by
  cases left with
  | mk leftBytes leftHash leftHashed =>
    cases right with
    | mk rightBytes rightHash rightHashed =>
      subst same leftHashed rightHashed
      rfl

namespace KeyValue

def tag : KeyValue → UInt8
  | null => NULL_TAG
  | int64 _ => INT64_TAG
  | utf8 _ => UTF8_TAG

def payload : KeyValue → Bytes
  | null => []
  | int64 value => ofInt64 value
  | utf8 value => value

/-- The payload length fits the frame header. -/
def Framed (value : KeyValue) : Prop := value.payload.length < 256 ^ 4

theorem tag_payload_injective {left right : KeyValue} (sameTag : left.tag = right.tag)
    (samePayload : left.payload = right.payload) : left = right := by
  cases left <;> cases right <;> simp_all [tag, payload, NULL_TAG, INT64_TAG, UTF8_TAG]
  exact ofInt64_injective samePayload

def encodeValue (value : KeyValue) : Bytes := frame value.tag value.payload

/-- `from_arrays`, one column: a slot that is not valid is NULL, whatever its type. -/
def ofCell (cell : Cell) : Except KeyCapsuleError KeyValue :=
  if cell.valid then
    match cell.raw with
    | .int64 value => .ok (int64 value)
    | .utf8 value => .ok (utf8 value.bytes)
    | raw => .error (.unsupportedType raw.dataType.display)
  else
    .ok null

end KeyValue

namespace KeyCapsule

def fromTypedBytes (typedBytes : Bytes) : KeyCapsule :=
  ⟨typedBytes, fnv1a128 typedBytes, rfl⟩

/-- The bytes `from_values` builds. -/
def typedBytesOf : List KeyValue → Bytes
  | [value] => value.encodeValue
  | values => frame COMPOSITE_TAG (values.flatMap KeyValue.encodeValue)

def fromValues (values : List KeyValue) : Except KeyCapsuleError KeyCapsule :=
  if values.isEmpty then
    .error .invalidEncoding
  else
    .ok (fromTypedBytes (typedBytesOf values))

def fromCells (cells : List Cell) : Except KeyCapsuleError KeyCapsule := do
  let values ← cells.mapM KeyValue.ofCell
  fromValues values

def isNull (capsule : KeyCapsule) : Bool :=
  capsule.typedBytes.head? == some NULL_TAG

/-- The loop of `contains_null`: read the frame at the current offset and skip it. Each
round consumes at least five bytes, so the byte count is fuel enough. -/
def scanNull : Nat → Bytes → Bool
  | 0, _ => false
  | fuel + 1, bytes =>
    if bytes.length < 5 then
      false
    else if bytes.head? = some NULL_TAG then
      true
    else
      scanNull fuel (bytes.drop (5 + ofBeBytes ((bytes.drop 1).take 4)))

def containsNull (capsule : KeyCapsule) : Bool :=
  if capsule.isNull then
    true
  else if capsule.typedBytes.head? ≠ some COMPOSITE_TAG ∨ capsule.typedBytes.length < 5 then
    false
  else
    scanNull capsule.typedBytes.length (capsule.typedBytes.drop 5)

/-! ## The scan finds exactly the NULL components -/

private theorem scanNull_frame {tag : UInt8} {payload rest : Bytes}
    (bound : payload.length < 256 ^ 4) : scanNull (fuel + 1) (frame tag payload ++ rest) =
      if tag = NULL_TAG then true else scanNull fuel rest := by
  have long : ¬ (frame tag payload ++ rest).length < 5 := by
    simp only [length_append, frame_length]
    omega
  have header : ((frame tag payload ++ rest).drop 1).take 4 = beBytes 4 payload.length := by
    simp [frame]
  have skip : (frame tag payload ++ rest).drop (5 + payload.length) = rest := by
    rw [← frame_length tag payload, drop_left]
  rw [scanNull, if_neg long, header, ofBeBytes_beBytes, Nat.mod_eq_of_lt bound, skip]
  simp [frame]

private theorem scanNull_flatMap (framed : ∀ value ∈ values, value.Framed)
    (enough : (values.flatMap encodeValue).length ≤ fuel) :
    scanNull fuel (values.flatMap encodeValue) = decide (null ∈ values) := by
  induction values generalizing fuel with
  | nil => cases fuel <;> simp [scanNull]
  | cons value values ih =>
    simp only [flatMap_cons, length_append, encodeValue, frame_length] at enough
    obtain ⟨fuel, rfl⟩ : ∃ smaller, fuel = smaller + 1 := ⟨fuel - 1, by omega⟩
    have restEnough : (values.flatMap encodeValue).length ≤ fuel := by
      omega
    have rest := ih (fun other mem => framed other (by simp [mem]))
      restEnough
    have headFramed : value.payload.length < 256 ^ 4 := framed value (by simp)
    rw [flatMap_cons]
    show scanNull (fuel + 1) (frame value.tag value.payload ++ _) = _
    rw [scanNull_frame headFramed, rest]
    cases value <;> simp [tag, NULL_TAG, INT64_TAG, UTF8_TAG]

theorem containsNull_fromTypedBytes (framed : ∀ value ∈ values, value.Framed) :
    (fromTypedBytes (typedBytesOf values)).containsNull = decide (null ∈ values) := by
  match values with
  | [] => decide
  | [value] =>
    cases value <;>
      simp [containsNull, isNull, fromTypedBytes, typedBytesOf, encodeValue, frame,
        tag, NULL_TAG, INT64_TAG, UTF8_TAG, COMPOSITE_TAG]
  | first :: second :: rest =>
    have enough : ((first :: second :: rest).flatMap encodeValue).length ≤
        (typedBytesOf (first :: second :: rest)).length := by
      simp only [typedBytesOf, frame_length]
      omega
    have scanned := scanNull_flatMap framed enough
    rw [← scanned]
    simp [containsNull, isNull, fromTypedBytes, typedBytesOf, frame, NULL_TAG, COMPOSITE_TAG]

/-! ## The encoding is injective -/

private theorem typedBytesOf_split (values : List KeyValue) :
    (∃ value, values = [value] ∧ typedBytesOf values = frame value.tag value.payload) ∨
      (values.length ≠ 1 ∧
        typedBytesOf values = frame COMPOSITE_TAG (values.flatMap encodeValue)) := by
  match values with
  | [] => exact .inr ⟨by simp, rfl⟩
  | [value] => exact .inl ⟨value, rfl, rfl⟩
  | first :: second :: rest => exact .inr ⟨by simp, rfl⟩

private theorem tag_ne_composite (value : KeyValue) : value.tag ≠ COMPOSITE_TAG := by
  cases value <;> simp [tag, NULL_TAG, INT64_TAG, UTF8_TAG, COMPOSITE_TAG]

private theorem selfDelimiting_encodeValue : SelfDelimiting encodeValue KeyValue.Framed where
  nonempty := fun value => by simp [encodeValue, frame]
  split := fun leftFramed rightFramed same => by
    have parts := frame_append_inj leftFramed rightFramed same
    exact ⟨tag_payload_injective parts.1 parts.2.1, parts.2.2⟩

/-- Two tuples with one encoding are equal, whatever their arities, and no short tail turns one
encoding into another: the header of a composite frame counts its payload. -/
theorem typedBytesOf_append_inj {left right : List KeyValue} {tail : Bytes}
    (leftFramed : ∀ value ∈ left, value.Framed) (rightFramed : ∀ value ∈ right, value.Framed)
    (short : tail.length < 256 ^ 4) (same : typedBytesOf left = typedBytesOf right ++ tail) :
    left = right ∧ tail = [] := by
  rcases typedBytesOf_split left with ⟨leftValue, rfl, leftBytes⟩ | ⟨_, leftBytes⟩ <;>
    rcases typedBytesOf_split right with ⟨rightValue, rfl, rightBytes⟩ | ⟨_, rightBytes⟩ <;>
    rw [leftBytes, rightBytes] at same
  · have parts := frame_append_inj (leftFramed leftValue (by simp))
      (rightFramed rightValue (by simp)) ((append_nil _).trans same)
    rw [tag_payload_injective parts.1 parts.2.1]
    exact ⟨rfl, parts.2.2.symm⟩
  · exact absurd (cons.inj same).1 (tag_ne_composite leftValue)
  · exact absurd (cons.inj same).1.symm (tag_ne_composite rightValue)
  · simp only [frame, cons_append, append_assoc, cons.injEq, true_and] at same
    have header := List.append_inj same (by simp)
    have sameLength := congrArg ofBeBytes header.1
    rw [ofBeBytes_beBytes, ofBeBytes_beBytes, header.2, length_append] at sameLength
    obtain rfl : tail = [] := eq_nil_of_length_eq_zero (by omega)
    rw [append_nil] at header
    exact ⟨selfDelimiting_encodeValue.flatMap_injective leftFramed rightFramed header.2, rfl⟩

/-- The bytes encode a tuple of the given arity. -/
def Encodes (arity : Nat) (bytes : Bytes) : Prop :=
  ∃ values : List KeyValue, values.length = arity ∧ (∀ value ∈ values, value.Framed) ∧
    bytes = typedBytesOf values

/-- Encodings of one arity are self-delimiting: none continues another. -/
theorem Encodes.append_inj {arity : Nat} {left right leftRest rightRest : Bytes}
    (leftEncodes : Encodes arity left) (rightEncodes : Encodes arity right)
    (same : left ++ leftRest = right ++ rightRest) : left = right ∧ leftRest = rightRest := by
  obtain ⟨leftValues, leftArity, leftFramed, rfl⟩ := leftEncodes
  obtain ⟨rightValues, rightArity, rightFramed, rfl⟩ := rightEncodes
  rcases typedBytesOf_split leftValues with ⟨leftValue, rfl, leftBytes⟩ | ⟨leftMany, leftBytes⟩ <;>
    rcases typedBytesOf_split rightValues with
      ⟨rightValue, rfl, rightBytes⟩ | ⟨rightMany, rightBytes⟩
  · have parts := frame_append_inj (leftFramed leftValue (by simp))
      (rightFramed rightValue (by simp)) same
    rw [tag_payload_injective parts.1 parts.2.1]
    exact ⟨rfl, parts.2.2⟩
  · exact absurd (rightArity.trans leftArity.symm) rightMany
  · exact absurd (leftArity.trans rightArity.symm) leftMany
  · rw [leftBytes, rightBytes] at same
    simp only [frame, cons_append, append_assoc, cons.injEq, true_and] at same
    have payloads := (List.append_inj same (by simp)).2
    have parts := selfDelimiting_encodeValue.flatMap_append_inj leftFramed rightFramed
      (leftArity.trans rightArity.symm) payloads
    rw [parts.1]
    exact ⟨rfl, parts.2⟩

end KeyCapsule

/-! ## Join keys of rows -/

/-- `row.column(c)` for each key column; an index outside the batch panics. -/
def keyCells (cells : List Cell) (keyCols : List Nat) : Exec (List Cell) :=
  keyCols.mapM fun column =>
    match cells[column]? with
    | some cell => .ok cell
    | none => .error (.panicked "index out of bounds")

/-- The capsule both `extract_key` functions build. -/
def keyCapsule (cells : List Cell) (keyCols : List Nat) : Exec KeyCapsule := do
  let arrays ← keyCells cells keyCols
  match KeyCapsule.fromCells arrays with
  | .ok capsule => pure capsule
  | .error error => .error (.err (.unsupportedPlanNode error.display))

/-- The key slots of a row; a slot outside the row reads as NULL. -/
def Row.slots (keyCols : List Nat) (row : Row) : List (Option Value) :=
  keyCols.map fun column => row[column]?.join

/-- Two rows join: no key slot is NULL, and the slots agree. -/
def Row.Matches (leftCols rightCols : List Nat) (left right : Row) : Prop :=
  none ∉ Row.slots leftCols left ∧ Row.slots leftCols left = Row.slots rightCols right

instance (leftCols rightCols : List Nat) (left right : Row) :
    Decidable (Row.Matches leftCols rightCols left right) :=
  inferInstanceAs (Decidable (_ ∧ _))

/-- A row is two halves exactly when its parts are. -/
theorem Row.append_eq_iff {left right row : Row} {width : Nat} (length : left.length = width) :
    left ++ right = row ↔ left = row.take width ∧ right = row.drop width := by
  constructor
  · intro same
    rw [← same, ← length]
    simp
  · rintro ⟨rfl, rfl⟩
    exact take_append_drop width row

/-- The key value of a slot, for the types a capsule supports. -/
def KeyValue.ofSlot : Option Value → Option KeyValue
  | none => some .null
  | some (.int64 value) => some (.int64 value)
  | some (.utf8 value) => some (.utf8 value.bytes)
  | some _ => none

theorem KeyValue.ofSlot_injective {left right : Option Value} (leftValue : ofSlot left = some value)
    (rightValue : ofSlot right = some value) : left = right := by
  unfold ofSlot at leftValue rightValue
  split at leftValue <;> cases leftValue <;> split at rightValue <;> simp_all [Text.ext_iff]

theorem KeyValue.ofCell_eq_ok {cell : Cell} (built : ofCell cell = .ok value) :
    ofSlot cell.get = some value ∧ value.Framed := by
  unfold ofCell at built
  unfold Cell.get ofSlot KeyValue.Framed
  split at built
  · next isValid =>
    rw [if_pos isValid]
    split at built
    · next raw isInt64 =>
      cases built
      simp [isInt64, payload]
    · next raw isUtf8 =>
      cases built
      have bounded := raw.bounded
      simp only [isUtf8, payload, true_and]
      omega
    · cases built
  · next isNull =>
    cases built
    simp [isNull, payload]

private theorem slots_of_keyCells {cells arrays : List Cell} {keyCols : List Nat}
    (selected : keyCells cells keyCols = .ok arrays) :
    Row.slots keyCols (cells.map Cell.get) = arrays.map Cell.get := by
  refine (map_eq_map_of_mapM_eq_ok (fun column cell found => ?_) selected).symm
  split at found
  · next other isCell =>
    cases found
    simp [isCell]
  · cases found

private theorem map_ofSlot_of_mapM {arrays : List Cell}
    (rel : List.Forall₂ (fun cell value => ofCell cell = .ok value) arrays values) :
    (arrays.map Cell.get).map ofSlot = values.map some ∧ ∀ value ∈ values, value.Framed := by
  induction rel with
  | nil => simp
  | cons built rest ih =>
    have head := ofCell_eq_ok built
    rw [map_cons, map_cons, map_cons, ih.1, head.1]
    refine ⟨rfl, ?_⟩
    rw [forall_mem_cons]
    exact ⟨head.2, ih.2⟩

section

variable {cells : List Cell} {keyCols : List Nat} {capsule : KeyCapsule}
  (built : keyCapsule cells keyCols = .ok capsule)
include cells keyCols capsule built

theorem keyCapsule_eq_ok :
    ∃ values, (Row.slots keyCols (cells.map Cell.get)).map ofSlot = values.map some ∧
      (∀ value ∈ values, value.Framed) ∧ capsule = fromTypedBytes (typedBytesOf values) := by
  obtain ⟨arrays, selected, built⟩ := bind_eq_ok.mp built
  split at built
  · next found fromCells =>
    cases built
    obtain ⟨values, mapped, done⟩ := bind_eq_ok.mp fromCells
    have slots := map_ofSlot_of_mapM (mapM_eq_ok.mp mapped)
    rw [← slots_of_keyCells selected] at slots
    refine ⟨values, slots.1, slots.2, ?_⟩
    unfold fromValues at done
    split at done
    · cases done
    · cases done
      rfl
  · cases built

theorem keyCapsule_encodes : KeyCapsule.Encodes keyCols.length capsule.typedBytes := by
  obtain ⟨values, slots, framed, rfl⟩ := keyCapsule_eq_ok built
  have arity := congrArg length slots
  simp only [Row.slots, length_map] at arity
  exact ⟨values, arity.symm, framed, rfl⟩

theorem keyCapsule_containsNull :
    capsule.containsNull = true ↔ none ∈ Row.slots keyCols (cells.map Cell.get) := by
  obtain ⟨values, slots, framed, rfl⟩ := keyCapsule_eq_ok built
  rw [containsNull_fromTypedBytes framed, decide_eq_true_iff]
  have encoded : null ∈ values ↔
      some null ∈ (Row.slots keyCols (cells.map Cell.get)).map ofSlot := by
    rw [slots]
    simp
  rw [encoded, mem_map]
  constructor
  · rintro ⟨slot, mem, isNull⟩
    have absent : slot = none := ofSlot_injective isNull rfl
    exact absent ▸ mem
  · intro mem
    exact ⟨none, mem, rfl⟩

end

private theorem map_ofSlot_injective {left right : List (Option Value)}
    (leftValues : left.map ofSlot = values.map some)
    (rightValues : right.map ofSlot = values.map some) : left = right := by
  induction values generalizing left right with
  | nil =>
    rw [map_nil, map_eq_nil_iff] at leftValues rightValues
    rw [leftValues, rightValues]
  | cons value values ih =>
    obtain ⟨leftHead, leftTail, rfl, leftSame, leftRest⟩ := map_eq_cons_iff.mp leftValues
    obtain ⟨rightHead, rightTail, rfl, rightSame, rightRest⟩ :=
      map_eq_cons_iff.mp rightValues
    rw [ofSlot_injective leftSame rightSame, ih leftRest rightRest]

theorem keyCapsule_typedBytes_inj {leftCells rightCells : List Cell} {leftCols rightCols : List Nat}
    {left right : KeyCapsule} (leftBuilt : keyCapsule leftCells leftCols = .ok left)
    (rightBuilt : keyCapsule rightCells rightCols = .ok right) :
    left.typedBytes = right.typedBytes ↔ Row.slots leftCols (leftCells.map Cell.get) =
        Row.slots rightCols (rightCells.map Cell.get) := by
  obtain ⟨leftValues, leftSlots, leftFramed, rfl⟩ := keyCapsule_eq_ok leftBuilt
  obtain ⟨rightValues, rightSlots, rightFramed, rfl⟩ := keyCapsule_eq_ok rightBuilt
  constructor
  · intro same
    have sameValues := typedBytesOf_append_inj leftFramed rightFramed (by simp)
      (same.trans (append_nil _).symm)
    rw [← sameValues.1] at rightSlots
    exact map_ofSlot_injective leftSlots rightSlots
  · intro same
    rw [same, rightSlots] at leftSlots
    rw [map_injective_iff.mpr (Option.some_injective _) leftSlots]

end RockStream
