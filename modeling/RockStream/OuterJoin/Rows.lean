import RockStream.OuterJoin.Op

/-!
Contract: the row and key encoding of the outer join operator.

Owns:
- `encodeRow`, the bytes of a row of nullable integers, and the round trip through
  `deserialize_row`;
- what a staged entry says about its row: its values, and when two entries share a key.

Does not own: the arrangements the entries go to.
-/

namespace RockStream

open Lib List KeyCapsule Bytes

variable {cell : Cell} {cells leftCells rightCells : List Cell} {tail : Bytes}
  {keyCols leftCols rightCols : List Nat}

namespace OuterJoinOp

/-! ## The row encoding -/

/-- The bytes of a row: the values, and the validity bytes when there is a NULL. -/
def encodeRow (values : Int64Row) : Bytes :=
  values.flatMap (fun value => Bytes.ofInt64 (value.getD 0)) ++
    if values.any Option.isNone then values.map fun value => if value.isSome then 1 else 0 else []

theorem Cell.isSome_int64Value (typed : cell.raw.dataType = .int64) :
    cell.int64Value.isSome = cell.valid := by
  obtain ⟨value, _, found⟩ := Cell.int64?_of_typed typed
  cases valid : cell.valid <;> simp [Cell.int64Value, found, valid]

private theorem serializeCell_of_typed (typed : cell.raw.dataType = .int64) :
    serializeCell cell = .ok (ofInt64 (cell.int64Value.getD 0)) := by
  obtain ⟨value, _, found⟩ := Cell.int64?_of_typed typed
  cases valid : cell.valid <;> simp [serializeCell, Cell.int64Value, found, valid]

private theorem validityBytes_of_typed (typed : Int64Typed cells) :
    validityBytes cells = if (cells.map Cell.int64Value).any Option.isNone then
      (cells.map Cell.int64Value).map fun value => if value.isSome then 1 else 0 else [] := by
  -- Both sides only read which cells are valid.
  have valid : (cells.map Cell.int64Value).map Option.isSome = cells.map Cell.valid := by
    rw [map_map]
    apply map_congr_left
    intro cell mem
    exact Cell.isSome_int64Value (typed cell mem)
  have anyNull := congrArg (any · not) valid
  have sameBytes := congrArg (map fun valid => if valid then (1 : UInt8) else 0) valid
  simp only [any_map, map_map, Function.comp_def, Option.not_isSome] at anyNull sameBytes ⊢
  rw [anyNull, sameBytes, validityBytes]

theorem serializeRow_of_typed (typed : Int64Typed cells) :
    serializeRow cells = .ok (encodeRow (cells.map Cell.int64Value)) := by
  have words := Loop.mapM_of_ok fun cell mem => serializeCell_of_typed (typed cell mem)
  unfold serializeRow
  rw [words, encodeRow, ← validityBytes_of_typed typed, flatMap_map]
  rfl

private theorem deserializeRow_append (values : Int64Row)
    (wholeTail : tail.length = 0 ∨ tail.length = values.length)
    (small : ∀ byte ∈ tail, ¬ 1 < byte) :
    deserializeRow (values.flatMap (fun value => ofInt64 (value.getD 0)) ++ tail)
        values.length = .ok ((values.map fun value => value.getD 0).zipIdx.map fun word =>
        if tail[word.2]?.all (fun valid => valid ≠ 0) then some word.1 else none) := by
  have length : (values.flatMap fun value => ofInt64 (value.getD 0)).length =
      values.length * 8 := by
    simp [length_flatMap]
  have wellFormed : ¬ (((values.flatMap (fun value => ofInt64 (value.getD 0)) ++ tail).length ≠
      values.length * 8 ∧ (values.flatMap (fun value => ofInt64 (value.getD 0)) ++ tail).length ≠
        values.length * 8 + values.length) ∨
      ((values.flatMap (fun value => ofInt64 (value.getD 0)) ++ tail).drop
        (values.length * 8)).any (fun valid => 1 < valid) = true) := by
    rw [← length, drop_left]
    simp only [length_append, any_eq_true, decide_eq_true_eq, not_or, not_and, not_exists]
    refine ⟨by omega, fun byte mem => small byte mem⟩
  unfold deserializeRow
  rw [if_neg wellFormed, ← length, take_left, ← flatMap_map,
    words_flatMap_ofInt64]
  congr 1
  apply map_congr_left
  intro word _
  rw [flatMap_map, getElem?_append_right (by omega), Nat.add_sub_cancel_left]

theorem deserializeRow_encodeRow (values : Int64Row) :
    deserializeRow (encodeRow values) values.length = .ok values := by
  unfold encodeRow
  split
  · next nulls =>
    rw [deserializeRow_append values (.inr (by simp))]
    · congr 1
      apply ext_getElem
      · simp
      · intro index _ inside
        have present := getElem?_eq_getElem inside
        cases value : values[index] <;> simp [value, present]
    · intro byte mem
      obtain ⟨value, _, rfl⟩ := mem_map.mp mem
      cases value <;> simp
  · next noNulls =>
    rw [deserializeRow_append values (.inl rfl) (by simp)]
    congr 1
    apply ext_getElem
    · simp
    · intro index _ inside
      have isSome : values[index].isSome = true := by
        by_contra isNone
        apply noNulls
        rw [any_eq_true]
        exact ⟨values[index], getElem_mem inside, by simpa using isNone⟩
      cases value : values[index] with
      | none =>
        rw [value] at isSome
        cases isSome
      | some word => simp [value]

/-! ## Staged entries -/

/-- Key columns that exist: there is at least one, and all are inside the row. -/
def KeyColumns (keyCols : List Nat) (nCols : Nat) : Prop :=
  keyCols ≠ [] ∧ ∀ column ∈ keyCols, column < nCols

instance (keyCols : List Nat) (nCols : Nat) : Decidable (KeyColumns keyCols nCols) :=
  inferInstanceAs (Decidable (_ ∧ _))

private theorem ofCell_of_typed (typed : cell.raw.dataType = .int64) : KeyValue.ofCell cell =
      .ok (match cell.int64Value with | some value => .int64 value | none => .null) := by
  obtain ⟨value, raw, found⟩ := Cell.int64?_of_typed typed
  cases valid : cell.valid <;> simp [KeyValue.ofCell, Cell.int64Value, raw, found, valid]

theorem keyCapsule_of_typed (typed : Int64Typed cells) (keys : KeyColumns keyCols cells.length) :
    ∃ capsule, keyCapsule cells keyCols = .ok capsule := by
  have selected : keyCells cells keyCols =
      .ok (keyCols.map fun column => cells.getD column ⟨.int64 0, true⟩) := by
    apply Loop.mapM_of_ok
    intro column mem
    have inside := keys.2 column mem
    simp [getElem?_eq_getElem inside, getD]
  have typedKeys : ∀ cell ∈ keyCols.map (fun column => cells.getD column ⟨.int64 0, true⟩),
      cell.raw.dataType = .int64 := by
    intro cell mem
    obtain ⟨column, inKeys, rfl⟩ := mem_map.mp mem
    have inside := keys.2 column inKeys
    rw [getD_eq_getElem _ _ inside]
    exact typed _ (getElem_mem inside)
  have values := Loop.mapM_of_ok fun cell mem => ofCell_of_typed (typedKeys cell mem)
  have built : ∃ capsule, fromCells
      (keyCols.map fun column => cells.getD column ⟨.int64 0, true⟩) = .ok capsule := by
    unfold fromCells
    rw [values]
    show ∃ capsule, fromValues _ = .ok capsule
    unfold fromValues
    rw [if_neg (by simpa using keys.1)]
    exact ⟨_, rfl⟩
  obtain ⟨capsule, built⟩ := built
  refine ⟨capsule, ?_⟩
  unfold keyCapsule
  rw [Loop.bind_of_ok selected, built]
  rfl

theorem stagedEntry_of_typed (op : OuterJoinOp)
    (mark : UInt8) (typed : Int64Typed cells) (keys : KeyColumns keyCols cells.length) :
    ∃ capsule, keyCapsule cells keyCols = .ok capsule ∧ op.stagedEntry keyCols mark cells =
        .ok (op.entryOf mark capsule.typedBytes capsule.containsNull
          (encodeRow (cells.map Cell.int64Value)), capsule.containsNull) := by
  obtain ⟨capsule, built⟩ := keyCapsule_of_typed typed keys
  refine ⟨capsule, built, ?_⟩
  unfold stagedEntry extractKey
  rw [built, serializeRow_of_typed typed]
  rfl

private theorem capsule_ne_append
    {left right : KeyCapsule} (leftBuilt : keyCapsule leftCells leftCols = .ok left)
    (rightBuilt : keyCapsule rightCells rightCols = .ok right) (nonempty : tail ≠ [])
    (short : tail.length < 256 ^ 4) : left.typedBytes ≠ right.typedBytes ++ tail := by
  obtain ⟨leftValues, _, leftFramed, rfl⟩ := keyCapsule_eq_ok leftBuilt
  obtain ⟨rightValues, _, rightFramed, rfl⟩ := keyCapsule_eq_ok rightBuilt
  exact fun same => nonempty (typedBytesOf_append_inj leftFramed rightFramed short same).2

/-- A left and a right entry share a key exactly when their rows join: a NULL key gets a bucket
that no key of the other side can equal. -/
theorem joinKey_entryOf_iff {op : OuterJoinOp} {left right : KeyCapsule}
    {leftBytes rightBytes : Bytes} (leftBuilt : keyCapsule leftCells leftCols = .ok left)
    (rightBuilt : keyCapsule rightCells rightCols = .ok right) :
    (op.entryOf 1 right.typedBytes right.containsNull rightBytes).joinKey =
        (op.entryOf 0 left.typedBytes left.containsNull leftBytes).joinKey ↔
      Row.Matches leftCols rightCols (leftCells.map Cell.get) (rightCells.map Cell.get) := by
  have leftNull := keyCapsule_containsNull leftBuilt
  have sameSlots := keyCapsule_typedBytes_inj leftBuilt rightBuilt
  unfold Row.Matches
  rw [← sameSlots, ← leftNull]
  simp only [entryOf]
  have tailShort : ∀ (rowId : BitVec 128) (mark : UInt8),
      (beBytes 16 rowId.toNat ++ [mark]).length < 256 ^ 4 := by simp
  cases leftIs : left.containsNull <;> cases rightIs : right.containsNull
  · simp [eq_comm]
  · have apart : ¬ left.typedBytes = right.typedBytes := by
      intro same
      rw [eq_of_typedBytes same, rightIs] at leftIs
      cases leftIs
    simp only [Bool.false_eq_true, if_true, if_false, apart, and_false, iff_false, append_assoc]
    exact fun same => capsule_ne_append leftBuilt rightBuilt (by simp) (tailShort _ _) same.symm
  · simp only [Bool.false_eq_true, if_true, if_false, not_true_eq_false, false_and, iff_false,
      append_assoc]
    exact capsule_ne_append rightBuilt leftBuilt (by simp) (tailShort _ _)
  · simp only [if_true, not_true_eq_false, false_and, iff_false]
    intro same
    have lastByte := congrArg getLast? same
    simp at lastByte

end OuterJoinOp

end RockStream
