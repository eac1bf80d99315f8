import RockStream.Join.Law
import RockStream.OuterJoin.NotIn

/-!
Contract: runs of the outer, semi and anti join operator.

Owns:
- staging: the entries a delta adds to either side;
- `commitStaged`: the arrangements, key weights and counters after an epoch;
- the invariant of a run: the arrangements represent the accumulated entries, and the
  emitted rows sum to the batch result over them.

Does not own: the reading of entries as rows.
-/

namespace RockStream

open Lib Lib.Weighted List Cell

namespace OuterJoinOp

/-! ## Staging -/

def entry (op : OuterJoinOp) (keyCols : List Nat) (mark : UInt8) (cells : List Cell) : Entry :=
  match op.stagedEntry keyCols mark cells with
  | .ok staged => staged.1
  | .error _ => ⟨[], 0, []⟩

def entries (op : OuterJoinOp) (keyCols : List Nat) (mark : UInt8)
    (rows : List (List Cell × Int)) : List (Entry × Int) :=
  rows.map fun row => (op.entry keyCols mark row.1, row.2)

theorem nullKey_encodeRow {keyCols : List Nat} {nCols : Nat} {values : Int64Row}
    (width : values.length = nCols) : nullKey keyCols nCols (encodeRow values) = true ↔
      none ∈ Row.slots keyCols (Int64Row.toRow values) := by
  unfold nullKey Row.slots Int64Row.toRow
  rw [decode_encodeRow width]
  simp only [any_eq_true, mem_map, getElem?_map]
  refine exists_congr fun column => and_congr_right fun _ => ?_
  cases values[column]? with
  | none => simp
  | some value => cases value <;> simp

section Staging

variable (op : OuterJoinOp) {fields : List Field} {keyCols : List Nat} {nCols : Nat}
  {cells : List Cell} (side : Int64Side fields keyCols nCols) (conforms : Conforms fields cells)
  (mark : UInt8)

include side conforms

theorem length_of_conforms : cells.length = nCols := by
  rw [conforms.length_eq, side.width]

theorem entry_of_conforms : ∃ capsule, keyCapsule cells keyCols = .ok capsule ∧
      op.entry keyCols mark cells = op.entryOf mark capsule.typedBytes capsule.containsNull
        (encodeRow (cells.map int64Value)) ∧
      op.stagedEntry keyCols mark cells = .ok (op.entry keyCols mark cells,
        nullKey keyCols nCols (op.entry keyCols mark cells).rowBytes) := by
  have typed := int64Typed_of_conforms side.typed conforms
  have length := length_of_conforms side conforms
  obtain ⟨capsule, built, staged⟩ := op.stagedEntry_of_typed mark typed
    (by rw [length]; exact side.keys)
  have isEntry : op.entry keyCols mark cells = op.entryOf mark capsule.typedBytes
      capsule.containsNull (encodeRow (cells.map int64Value)) := by
    rw [entry, staged]
  refine ⟨capsule, built, isEntry, ?_⟩
  have sameNull : nullKey keyCols nCols (encodeRow (cells.map int64Value)) =
      capsule.containsNull := by
    rw [Bool.eq_iff_iff, nullKey_encodeRow (by simpa using length), ← get_of_typed typed,
      keyCapsule_containsNull built]
  rw [staged, isEntry]
  simp only [entryOf, sameNull]

theorem entry_rowBytes :
    (op.entry keyCols mark cells).rowBytes = encodeRow (cells.map int64Value) := by
  obtain ⟨capsule, _, isEntry, _⟩ := entry_of_conforms op side conforms mark
  rw [isEntry]
  rfl

theorem entry_stored : Stored fields (op.entry keyCols mark cells).rowBytes :=
  ⟨cells.map int64Value, entry_rowBytes op side conforms mark,
    conforms_int64Value side.typed conforms⟩

theorem toRow_decode_entry :
    Int64Row.toRow (decode nCols (op.entry keyCols mark cells).rowBytes) = cells.map get := by
  rw [entry_rowBytes op side conforms mark,
    decode_encodeRow (by simpa using length_of_conforms side conforms),
    get_of_typed (int64Typed_of_conforms side.typed conforms)]

theorem length_decode_entry :
    (decode nCols (op.entry keyCols mark cells).rowBytes).length = nCols :=
  (entry_stored op side conforms mark).length side.width

theorem nullKey_entry : nullKey keyCols nCols (op.entry keyCols mark cells).rowBytes = true ↔
      none ∈ Row.slots keyCols (cells.map get) := by
  rw [entry_rowBytes op side conforms mark,
    nullKey_encodeRow (by simpa using length_of_conforms side conforms),
    ← get_of_typed (int64Typed_of_conforms side.typed conforms)]

end Staging

variable {op : OuterJoinOp} {state : OuterJoinState} {left right : List (Entry × Int)}

section Stage

variable {fields : List Field} {delta : ArrowZSet}

theorem entries_append (op : OuterJoinOp) (keyCols : List Nat) (mark : UInt8)
    (first second : List (List Cell × Int)) : op.entries keyCols mark (first ++ second) =
      op.entries keyCols mark first ++ op.entries keyCols mark second :=
  map_append

theorem entries_stored (op : OuterJoinOp) {keyCols : List Nat} {nCols : Nat}
    (side : Int64Side fields keyCols nCols)
    (mark : UInt8) {rows : List (List Cell × Int)}
    (conforms : ∀ input ∈ rows, Conforms fields input.1) :
    ∀ row ∈ op.entries keyCols mark rows, Stored fields row.1.rowBytes := by
  intro row mem
  obtain ⟨input, inRows, rfl⟩ := mem_map.mp mem
  exact entry_stored op side (conforms input inRows) mark

/-- The state after rows were staged on the left: only the staged delta differs. -/
def LeftStaged (op : OuterJoinOp) (state : OuterJoinState) (rows : List (List Cell × Int))
    (next : OuterJoinState) : Prop :=
  ∃ stagedBytes, next = { state with leftStaged :=
    ⟨⟨state.leftStaged.rows ++ op.entries op.leftKeyCols 0 rows, stagedBytes⟩,
      state.leftStaged.nullWeight⟩ }

/-- The state after rows were staged on the right, with the weight of their NULL keys. -/
def RightStaged (op : OuterJoinOp) (state : OuterJoinState) (rows : List (List Cell × Int))
    (next : OuterJoinState) : Prop :=
  ∃ stagedBytes, next = { state with rightStaged :=
    ⟨⟨state.rightStaged.rows ++ op.entries op.rightKeyCols 1 rows, stagedBytes⟩,
      state.rightStaged.nullWeight + op.nullSum (op.entries op.rightKeyCols 1 rows)⟩ }

theorem stageLeft_yields (side : Int64Side fields op.leftKeyCols op.leftNCols)
    (sameFields : delta.fields = fields) :
    StepYields (op.stageLeft state delta) (op.LeftStaged state delta.rows) := by
  refine Meets.foldlM (op.LeftStaged state) ⟨state.leftStaged.stagedBytes, by simp [entries]⟩ ?_
  rintro done row rest _ split ⟨stagedBytes, rfl⟩
  have conforms : Conforms fields row.1 := by
    rw [← sameFields]
    exact delta.conforms row (by rw [split]; simp)
  obtain ⟨_, _, _, staged⟩ := entry_of_conforms op side conforms 0
  unfold stageLeftRow
  rw [staged]
  unfold LeftStaged
  rw [entries_append, ← append_assoc]
  exact Meets.ok ⟨_, rfl⟩

theorem stageRight_yields (side : Int64Side fields op.rightKeyCols op.rightNCols)
    (sameFields : delta.fields = fields) :
    StepYields (op.stageRight state delta) (op.RightStaged state delta.rows) := by
  refine Meets.foldlM (op.RightStaged state)
    ⟨state.rightStaged.stagedBytes, by simp [entries, nullSum]⟩ ?_
  rintro done row rest _ split ⟨stagedBytes, rfl⟩
  have conforms : Conforms fields row.1 := by
    rw [← sameFields]
    exact delta.conforms row (by rw [split]; simp)
  obtain ⟨_, _, _, staged⟩ := entry_of_conforms op side conforms 1
  have grown : op.nullSum (op.entries op.rightKeyCols 1 (done ++ [row])) =
      op.nullSum (op.entries op.rightKeyCols 1 done) +
        if nullKey op.rightKeyCols op.rightNCols (op.entry op.rightKeyCols 1 row.1).rowBytes
        then row.2 else 0 := by
    simp [nullSum, entries]
  unfold stageRightRow RightStaged
  rw [staged, grown, entries_append, ← append_assoc]
  cases isNull : nullKey op.rightKeyCols op.rightNCols
      (op.entry op.rightKeyCols 1 row.1).rowBytes with
  | true =>
    refine ((yields_addI64 _ _).within _).bindEq ?_
    exact Meets.ok ⟨_, by rw [if_pos rfl, ← Int.add_assoc]; rfl⟩
  | false => exact Meets.ok ⟨_, by rw [if_neg Bool.false_ne_true, Int.add_zero]; rfl⟩

end Stage

/-! ## Committing -/

/-- A state between epochs: everything fed is arranged and tracked, nothing is staged. -/
structure Settled (op : OuterJoinOp) (left right : List (Entry × Int)) (state : OuterJoinState) :
    Prop where
  leftArranged : state.leftArr.Represents left
  rightArranged : state.rightArr.Represents right
  tracks : op.Tracks state left right
  leftEmpty : state.leftStaged.rows = []
  rightEmpty : state.rightStaged.rows = []
  noNull : state.rightStaged.nullWeight = 0

section Commit

variable {deltaRw : HashMap Bytes Int}

/-- The counters of `NullAwareAnti` grow by the staged weights; nothing else that is read later
changes. -/
private theorem commitNullAware_yields {rows : List (Entry × Int)} {nullDelta : Int}
    (deltaCounts : op.kind ≠ .right → Counts deltaRw (byKey rows)) :
    Yields (op.commitNullAware deltaRw nullDelta state) fun next =>
      ∃ rightTotalWeight rightNullWeight stateBytes dirtyNullWeight, next = { state with
        rightTotalWeight, rightNullWeight, stateBytes, dirtyNullWeight } ∧
      (op.kind = .nullAwareAnti → rightTotalWeight = state.rightTotalWeight + totalSum rows ∧
        rightNullWeight = state.rightNullWeight + nullDelta) := by
  unfold commitNullAware
  split
  · next isNotIn =>
    refine (sumValues_yields (deltaCounts (by simp [isNotIn]))).bindEq ((yields_addI64 _ _).bindEq
      ((yields_addI64 _ _).bindEq ?_))
    exact Meets.pure ⟨_, _, _, _, rfl, fun _ => ⟨by rw [integrate_byKey], rfl⟩⟩
  · next notNotIn =>
    exact Meets.pure ⟨_, _, _, _, rfl, fun isNotIn => absurd isNotIn notNotIn⟩

theorem commitStaged_yields {deltaLw : Option (HashMap Bytes Int)}
    (leftArranged : state.leftArr.Represents left) (rightArranged : state.rightArr.Represents right)
    (tracks : op.Tracks state left right)
    (stagedNull : state.rightStaged.nullWeight = op.nullSum state.rightStaged.rows)
    (leftDistinct : EntriesDistinct (left ++ state.leftStaged.rows))
    (rightDistinct : EntriesDistinct (right ++ state.rightStaged.rows))
    (rightDeltas : op.kind ≠ .right → Counts deltaRw (byKey state.rightStaged.rows))
    (leftDeltas : match deltaLw with
      | some deltaLw => Counts deltaLw (byKey state.leftStaged.rows)
      | none => ¬ (op.kind = .right ∨ op.kind = .full)) :
    Yields (op.commitStaged deltaRw deltaLw state)
      (op.Settled (left ++ state.leftStaged.rows) (right ++ state.rightStaged.rows)) := by
  refine (Arranged.drain_yields ⟨state.leftArr, state.stateBytes, state.dirtyLeft⟩ leftArranged
    leftDistinct).bind fun leftSide leftDrained => ?_
  refine (Arranged.drain_yields ⟨state.rightArr, leftSide.stateBytes, state.dirtyRight⟩
    rightArranged rightDistinct).bind fun rightSide rightDrained => ?_
  refine (commitNullAware_yields rightDeltas).bind ?_
  rintro _ ⟨rightTotal, rightNull, bytes, dirtyNull, rfl, counters⟩
  refine (updateKeyWeight_yields state.rightKeyWeight deltaRw bytes state.dirtyRw).bind ?_
  rintro ⟨rightKeyWeight, stateBytes, dirtyRw⟩ rightCounted
  have total : op.kind = .nullAwareAnti →
      rightTotal = totalSum (right ++ state.rightStaged.rows) := by
    intro isNotIn
    rw [(counters isNotIn).1, totalSum_append, ← tracks.total isNotIn]
  have null : op.kind = .nullAwareAnti →
      rightNull = op.nullSum (right ++ state.rightStaged.rows) := by
    intro isNotIn
    rw [(counters isNotIn).2, nullSum_append, ← tracks.null isNotIn, ← stagedNull]
  have rightKeys : op.kind ≠ .right →
      Counts rightKeyWeight (byKey (right ++ state.rightStaged.rows)) := by
    intro notRight
    rw [byKey_append]
    exact Counts.append rightCounted (tracks.rightKeys notRight) (rightDeltas notRight)
  cases deltaLw with
  | none =>
    exact Meets.pure ⟨leftDrained, rightDrained,
      ⟨rightKeys, fun keepsLeft => absurd keepsLeft leftDeltas, total, null⟩, rfl, rfl, rfl⟩
  | some deltaLw =>
    refine (updateKeyWeight_yields state.leftKeyWeight deltaLw stateBytes state.dirtyLw).bind ?_
    rintro ⟨leftKeyWeight, finalBytes, dirtyLw⟩ leftCounted
    refine Meets.pure ⟨leftDrained, rightDrained, ⟨rightKeys, fun keepsLeft => ?_, total, null⟩,
      rfl, rfl, rfl⟩
    rw [byKey_append]
    exact Counts.append leftCounted (tracks.leftKeys keepsLeft) leftDeltas

end Commit

/-! ## Epochs -/

section Epoch

variable {leftFields rightFields : List Field}
  (sides : op.Int64Sides leftFields rightFields)

include sides

section

variable (ready : Ready leftFields rightFields state left right)
  (tracks : op.Tracks state left right)
  (stagedNull : state.rightStaged.nullWeight = op.nullSum state.rightStaged.rows)
  (notEmpty : 0 < op.nullSum (right ++ state.rightStaged.rows) →
    totalSum (right ++ state.rightStaged.rows) ≠ 0)
include ready tracks stagedNull notEmpty

theorem kindOutputs_yields :
    Yields (op.kindOutputs state (op.outputSchema leftFields rightFields))
      (op.KindSpec (op.outputSchema leftFields rightFields) state left right) := by
  unfold kindOutputs
  split
  · next isLeft => exact leftOutputs_yields sides ready tracks isLeft
  · next isRight => exact rightOutputs_yields sides ready tracks isRight
  · next isFull => exact fullOutputs_yields sides ready tracks isFull
  · next isSemi =>
    exact filterOutputs_yields sides ready tracks (.inl isSemi) tracks_matched
      fun test left right => by simp only [entrySum, isSemi]
  · next isAnti =>
    exact filterOutputs_yields sides ready tracks (.inr (.inl isAnti)) tracks_unmatched
      fun test left right => by simp only [entrySum, isAnti]
  · next isNotIn =>
    exact nullAwareAntiOutputs_yields sides ready tracks isNotIn stagedNull notEmpty

theorem finishEpoch_yields (leftDistinct : EntriesDistinct (left ++ state.leftStaged.rows))
    (rightDistinct : EntriesDistinct (right ++ state.rightStaged.rows)) :
    StepYields (op.finishEpoch state (op.outputSchema leftFields rightFields)) fun result =>
        op.Settled (left ++ state.leftStaged.rows) (right ++ state.rightStaged.rows) result.2 ∧
        ∃ rows, Emits (op.outputSchema leftFields rightFields) [result.1] rows ∧
          ∀ test, op.entrySum test (left ++ state.leftStaged.rows)
            (right ++ state.rightStaged.rows) =
              op.entrySum test left right + integrate test rows := by
  refine ((kindOutputs_yields sides ready tracks stagedNull notEmpty).within state).bind
    fun result spec => ?_
  refine ((commitStaged_yields ready.leftArranged ready.rightArranged tracks stagedNull leftDistinct
    rightDistinct spec.rightDeltas spec.leftDeltas).within state).bind fun next settled => ?_
  obtain ⟨rows, emits, sums⟩ := spec.emits
  obtain ⟨output, concatenated, outputFields⟩ :=
    ArrowZSet.concatZsets_of_fields (outputSchema_ne_nil sides) emits.1
  rw [concatenated]
  refine Meets.ok ⟨settled, rows, ⟨by simpa using outputFields, ?_⟩, sums⟩
  rw [← emits.2, ← ArrowZSet.concatZsets_rows concatenated]
  simp

end

/-- An epoch settles its entries and emits the change of the batch result over them. -/
theorem processEpoch_yields {epoch : ArrowZSet × ArrowZSet}
    (leftSchema : epoch.1.fields = leftFields) (rightSchema : epoch.2.fields = rightFields)
    (settled : op.Settled left right state)
    (leftStored : ∀ row ∈ left, Stored leftFields row.1.rowBytes)
    (rightStored : ∀ row ∈ right, Stored rightFields row.1.rowBytes)
    (leftDistinct : EntriesDistinct (left ++ op.entries op.leftKeyCols 0 epoch.1.rows))
    (rightDistinct : EntriesDistinct (right ++ op.entries op.rightKeyCols 1 epoch.2.rows))
    (notEmpty : 0 < op.nullSum (right ++ op.entries op.rightKeyCols 1 epoch.2.rows) →
      totalSum (right ++ op.entries op.rightKeyCols 1 epoch.2.rows) ≠ 0) :
    StepYields (op.processEpoch state epoch) fun result =>
      op.Settled (left ++ op.entries op.leftKeyCols 0 epoch.1.rows)
        (right ++ op.entries op.rightKeyCols 1 epoch.2.rows) result.2 ∧
      ∃ rows, Emits (op.outputSchema leftFields rightFields) [result.1] rows ∧
        ∀ test, op.entrySum test (left ++ op.entries op.leftKeyCols 0 epoch.1.rows)
            (right ++ op.entries op.rightKeyCols 1 epoch.2.rows) =
          op.entrySum test left right + integrate test rows := by
  have leftEntriesStored := entries_stored op sides.left 0 fun input inEpoch =>
    leftSchema ▸ epoch.1.conforms input inEpoch
  have rightEntriesStored := entries_stored op sides.right 1 fun input inEpoch =>
    rightSchema ▸ epoch.2.conforms input inEpoch
  refine (stageLeft_yields sides.left leftSchema).bind ?_
  rintro _ ⟨leftBytes, rfl⟩
  refine (stageRight_yields sides.right rightSchema).bind ?_
  rintro _ ⟨rightBytes, rfl⟩
  simp only [settled.leftEmpty, settled.rightEmpty, settled.noNull, nil_append, zero_add,
    leftSchema, rightSchema]
  exact finishEpoch_yields sides
    ⟨settled.leftArranged, settled.rightArranged, leftStored, rightStored, leftEntriesStored,
      rightEntriesStored⟩
    ⟨settled.tracks.rightKeys, settled.tracks.leftKeys, settled.tracks.total, settled.tracks.null⟩
    rfl notEmpty leftDistinct rightDistinct

end Epoch

end OuterJoinOp

end RockStream
