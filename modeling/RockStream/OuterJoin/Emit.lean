import RockStream.Lib.Counter
import RockStream.OuterJoin.Rows

/-!
Contract: what the parts of an outer join epoch emit.

Every part decodes stored rows, computes weights and builds a batch. On rows that the
operator stored itself the decoding and the batch construction succeed, so a part
either returns the list stated here or overflows a weight.

Owns:
- `Int64Side`, the shape of one input, and the conformance of output rows;
- `Emits`, batches under one schema that hold given rows;
- one postcondition for each part: inner join, transitions, arrivals.

Does not own: what the emitted rows sum to.
-/

namespace RockStream

open Lib Lib.Weighted List

variable {fields : List Field} {nCols : Nat} {name : Nat → String}
  {probe : Bytes → List (Bytes × Int)} {staged : List (Entry × Int)} {keep : Int → Bool}
  {arr : Arrangement}

namespace OuterJoinOp

variable {row : Bytes × Int} {values : Int64Row} {rows : List ((Int64Row × Int64Row) × Int)}

/-! ## Stored rows -/

/-- One input of the operator: Int64 columns of the declared width, and existing key columns. -/
structure Int64Side (fields : List Field) (keyCols : List Nat) (nCols : Nat) : Prop where
  width : fields.length = nCols
  typed : ∀ field ∈ fields, field.dataType = .int64
  keys : KeyColumns keyCols nCols

/-- Both inputs. -/
structure Int64Sides (op : OuterJoinOp) (leftFields rightFields : List Field) : Prop where
  left : Int64Side leftFields op.leftKeyCols op.leftNCols
  right : Int64Side rightFields op.rightKeyCols op.rightNCols

abbrev outputSchema (op : OuterJoinOp) (leftFields rightFields : List Field) : List Field :=
  outerJoinOutputSchema op.kind leftFields rightFields

private theorem admits_ofInt64? {field : Field} {value : Option Int64}
    (typed : field.dataType = .int64) :
    field.Admits (Cell.ofInt64? value) ↔ (value = none → field.nullable = true) := by
  cases value <;> simp [Field.Admits, Cell.ofInt64?, Value.dataType, typed]

theorem conforms_int64Value {cells : List Cell}
    (typed : ∀ field ∈ fields, field.dataType = .int64) (conforms : Conforms fields cells) :
    Conforms fields (Int64Row.cells (cells.map Cell.int64Value)) := by
  induction conforms with
  | nil => exact .nil
  | @cons field cell fields cells admits _ ih =>
    obtain ⟨isInt64, typed⟩ := forall_mem_cons.mp typed
    refine .cons ?_ (ih typed)
    refine (admits_ofInt64? isInt64).mpr fun isNone => admits.2 ?_
    rw [← Cell.isSome_int64Value (admits.1.trans isInt64), isNone]
    rfl

def decode (nCols : Nat) (bytes : Bytes) : Int64Row :=
  match deserializeRow bytes nCols with
  | .ok values => values
  | .error _ => []

def Stored (fields : List Field) (bytes : Bytes) : Prop :=
  ∃ values : Int64Row, bytes = encodeRow values ∧ Conforms fields (Int64Row.cells values)

theorem decode_encodeRow (width : values.length = nCols) :
    decode nCols (encodeRow values) = values := by
  rw [decode, ← width, deserializeRow_encodeRow]

namespace Stored

variable {bytes : Bytes}

private theorem length_values (width : fields.length = nCols)
    (conforms : Conforms fields (Int64Row.cells values)) : values.length = nCols := by
  have lengths := conforms.length_eq
  rw [Int64Row.cells, length_map] at lengths
  rw [lengths, width]

variable (stored : Stored fields bytes) (width : fields.length = nCols)
include stored width

theorem deserialize :
    deserializeRow bytes nCols = .ok (decode nCols bytes) := by
  obtain ⟨values, rfl, conforms⟩ := stored
  have length := length_values width conforms
  rw [decode_encodeRow length, ← length]
  exact deserializeRow_encodeRow values

theorem conforms :
    Conforms fields (Int64Row.cells (decode nCols bytes)) := by
  obtain ⟨values, rfl, conforms⟩ := stored
  rw [decode_encodeRow (length_values width conforms)]
  exact conforms

theorem length :
    (decode nCols bytes).length = nCols :=
  length_values width (stored.conforms width)

end Stored

/-! ## Output schemas -/

section OutputSchema

def columns (name : Nat → String) (padded : Bool) (fields : List Field) (start : Nat) :
    List Field :=
  (fields.zipIdx start).map fun field => ⟨name field.2, .int64, padded || field.1.nullable⟩

private theorem conforms_columns {padded : Bool} (typed : ∀ field ∈ fields, field.dataType = .int64)
    (start : Nat) (conforms : Conforms fields (Int64Row.cells values)) :
    Conforms (columns name padded fields start) (Int64Row.cells values) := by
  rw [Int64Row.cells, Conforms, forall₂_map_right_iff] at conforms ⊢
  induction conforms generalizing start with
  | nil => exact .nil
  | @cons field value fields values admits _ ih =>
    obtain ⟨isInt64, typed⟩ := forall_mem_cons.mp typed
    refine .cons ((admits_ofInt64? rfl).mpr fun isNone => ?_) (ih typed (start + 1))
    show (padded || field.nullable) = true
    rw [(admits_ofInt64? isInt64).mp admits isNone, Bool.or_true]

private theorem conforms_nulls (start : Nat) :
    Conforms (columns name true fields start) (Int64Row.cells (replicate fields.length none)) := by
  induction fields generalizing start with
  | nil => exact .nil
  | cons field fields ih =>
    exact .cons ((admits_ofInt64? rfl).mpr fun _ => rfl) (ih (start + 1))

/-- The kinds that emit left rows alone. -/
def Filters (kind : OuterJoinKind) : Prop := kind = .semi ∨ kind = .anti ∨ kind = .nullAwareAnti

instance (kind : OuterJoinKind) : Decidable (Filters kind) := inferInstanceAs (Decidable (_ ∨ _))

variable {kind : OuterJoinKind} {right : List Field}

theorem outputSchema_eq : outerJoinOutputSchema kind fields right =
      columns (fun index => s!"l_{index}") (decide (kind = .right ∨ kind = .full)) fields 0 ++
        if Filters kind then []
        else columns (fun index => s!"r_{index}") (decide (kind = .left ∨ kind = .full)) right 0 :=
  rfl

theorem outputSchema_length (kind : OuterJoinKind) (fields right : List Field) :
    (outerJoinOutputSchema kind fields right).length =
      fields.length + if Filters kind then 0 else right.length := by
  rw [outputSchema_eq]
  split <;> simp [columns]

private theorem conforms_append {first second : List Field} {own other : Int64Row}
    (firstConforms : Conforms first (Int64Row.cells own))
    (secondConforms : Conforms second (Int64Row.cells other)) :
    Conforms (first ++ second) (Int64Row.cells (own ++ other)) := by
  rw [Int64Row.cells, map_append]
  exact rel_append firstConforms secondConforms

end OutputSchema

/-! ## Batches -/

/-- The batches are under the schema and hold the rows, in order. -/
def Emits (schema : List Field) (batches : List ArrowZSet) (rows : List (Int64Row × Int)) : Prop :=
  (∀ batch ∈ batches, batch.fields = schema) ∧
    batches.flatMap ArrowZSet.rows = rows.map fun row => (Int64Row.cells row.1, row.2)

section Batches

variable {schema : List Field}

theorem Emits.nil : Emits schema [] [] := by simp [Emits]

theorem Emits.append {first second : List ArrowZSet} {firstRows secondRows : List (Int64Row × Int)}
    (firstEmits : Emits schema first firstRows) (secondEmits : Emits schema second secondRows) :
    Emits schema (first ++ second) (firstRows ++ secondRows) := by
  refine ⟨fun batch mem => ?_, ?_⟩
  · exact (mem_append.mp mem).elim (firstEmits.1 batch) (secondEmits.1 batch)
  · rw [flatMap_append, firstEmits.2, secondEmits.2, map_append]

theorem int64Batch_yields {columns : Nat} {rows : List (Int64Row × Int)}
    (width : columns = schema.length) (nonempty : schema ≠ [])
    (conforms : ∀ row ∈ rows, Conforms schema (Int64Row.cells row.1)) :
    Yields (int64Batch columns rows schema) fun batch => Emits schema [batch] rows := by
  have rowsConform : ∀ row ∈ rows.map (fun row => (row.1.map Cell.ofInt64?, row.2)),
      Conforms schema row.1 := by
    intro row mem
    obtain ⟨values, inRows, rfl⟩ := mem_map.mp mem
    exact conforms values inRows
  unfold int64Batch
  rw [if_pos width, ArrowZSet.tryNew_of_conforms nonempty rowsConform]
  refine Meets.ok ⟨by simp, ?_⟩
  simp [Int64Row.cells]

theorem pushNonempty_yields {α : Type} {rows : List α} {make : List α → Exec ArrowZSet}
    {emitted : List (Int64Row × Int)} (hollow : rows = [] → emitted = [])
    (makes : Yields (make rows) fun batch => Emits schema [batch] emitted) :
    Yields (pushNonempty rows make) fun batches => Emits schema batches emitted := by
  cases rows with
  | nil =>
    rw [hollow rfl]
    exact Meets.ok Emits.nil
  | cons row rows => exact makes.bind fun batch emits => Meets.pure emits

private theorem masked_eq {isNull : Bool} (masked : isNull = true → values = replicate nCols none) :
    values.map (fun value => if isNull then none else value) = values := by
  cases isNull with
  | false => simp
  | true => simp [masked rfl]

theorem makeOutputBatch_yields {op : OuterJoinOp} {leftIsNull rightIsNull : Bool}
    (width : op.leftNCols + op.rightNCols = schema.length) (nonempty : schema ≠ [])
    (conforms : ∀ row ∈ rows, Conforms schema (Int64Row.cells (row.1.1 ++ row.1.2)))
    (leftMasked : leftIsNull = true → ∀ row ∈ rows, row.1.1 = replicate op.leftNCols none)
    (rightMasked : rightIsNull = true → ∀ row ∈ rows, row.1.2 = replicate op.rightNCols none) :
    Yields (op.makeOutputBatch rows schema leftIsNull rightIsNull) fun batch =>
      Emits schema [batch] (rows.map fun row => (row.1.1 ++ row.1.2, row.2)) := by
  have unmasked : rows.map (fun row =>
      (row.1.1.map (fun value => if leftIsNull then none else value) ++
        row.1.2.map (fun value => if rightIsNull then none else value), row.2)) =
      rows.map fun row => (row.1.1 ++ row.1.2, row.2) := by
    apply map_congr_left
    intro row mem
    rw [masked_eq fun isNull => leftMasked isNull row mem,
      masked_eq fun isNull => rightMasked isNull row mem]
  unfold makeOutputBatch
  simp only [unmasked]
  apply int64Batch_yields width nonempty
  intro row mem
  obtain ⟨pair, inRows, rfl⟩ := mem_map.mp mem
  exact conforms pair inRows

end Batches

/-! ## Rows that appear or disappear -/

section Parts

variable {α : Type} (deltas weights : HashMap Bytes Int)

/-- What `transitions` emits for one key: its rows when the match status changes. -/
def transitionPart (probe : Bytes → List (Bytes × Int)) (value : Bool → Bytes × Int → α)
    (pair : Bytes × Int) : List α :=
  if decide ((weights.lookup pair.1).getD 0 = 0) ≠
      decide ((weights.lookup pair.1).getD 0 + pair.2 = 0) then
    (probe pair.1).map (value (decide ((weights.lookup pair.1).getD 0 = 0)))
  else []

def transitionRows (probe : Bytes → List (Bytes × Int)) (value : Bool → Bytes × Int → α) : List α :=
  deltas.toPairs.flatMap (transitionPart weights probe value)

/-- A row of a key that changes status: `sign` is the sign of a row whose key was unmatched. -/
def signed (shape : Bytes → α) (sign : Int) (wasUnmatched : Bool) (row : Bytes × Int) : α × Int :=
  (shape row.1, (if wasUnmatched then sign else -sign) * row.2)

/-- What `arrivals` emits for one staged row. -/
def arrivalPart (keep : Int → Bool) (shape : Bytes → α) (row : Entry × Int) : List (α × Int) :=
  if keep ((weights.lookup row.1.joinKey).getD 0 + (deltas.lookup row.1.joinKey).getD 0) then
    [(shape row.1.rowBytes, row.2)]
  else []

def arrivalRows (staged : List (Entry × Int)) (keep : Int → Bool) (shape : Bytes → α) :
    List (α × Int) :=
  staged.flatMap (arrivalPart deltas weights keep shape)

variable {deltas weights} {shape : Bytes → α}

theorem mem_transitionRows {value : Bool → Bytes × Int → α}
    {row : α} (mem : row ∈ transitionRows deltas weights probe value) :
    ∃ wasUnmatched joinKey, ∃ stored ∈ probe joinKey, row = value wasUnmatched stored := by
  obtain ⟨pair, _, inPart⟩ := mem_flatMap.mp mem
  unfold transitionPart at inPart
  split at inPart
  · obtain ⟨stored, probed, rfl⟩ := mem_map.mp inPart
    exact ⟨_, pair.1, stored, probed, rfl⟩
  · cases inPart

theorem mem_arrivalRows {row : α × Int} (mem : row ∈ arrivalRows deltas weights staged keep shape) :
    ∃ entry ∈ staged, row.1 = shape entry.1.rowBytes := by
  obtain ⟨entry, inStaged, inPart⟩ := mem_flatMap.mp mem
  unfold arrivalPart at inPart
  split at inPart
  · exact ⟨entry, inStaged, by rw [mem_singleton.mp inPart]⟩
  · cases inPart

theorem transitions_yields {value : Bool → Bytes × Int → α}
    {emit : Bool → Bytes × Int → Exec α} (emits : ∀ wasUnmatched joinKey, ∀ row ∈ probe joinKey,
      Yields (emit wasUnmatched row) (· = value wasUnmatched row)) :
    Yields (transitions deltas weights probe emit)
      (· = transitionRows deltas weights probe value) := by
  refine Meets.mapM_flatten fun pair _ => (yields_addI64 _ _).bindEq ?_
  unfold transitionPart
  split
  · exact Meets.mapM fun row probed => emits _ pair.1 row probed
  · exact Meets.pure rfl

theorem arrivals_yields {emit : Bytes × Int → Exec (α × Int)}
    (emits : ∀ row ∈ staged, Yields (emit (row.1.rowBytes, row.2))
      (· = (shape row.1.rowBytes, row.2))) : Yields (arrivals staged deltas weights keep emit)
      (· = arrivalRows deltas weights staged keep shape) := by
  refine Meets.mapM_flatten fun row mem => (yields_addI64 _ _).bindEq ?_
  unfold arrivalPart
  split
  · exact (emits row mem).bindEq (Meets.pure rfl)
  · exact Meets.pure rfl

end Parts

/-! ## The parts of an epoch -/

/-- What an epoch computes from: arrangements of stored rows, and staged rows. -/
structure Ready (leftFields rightFields : List Field) (state : OuterJoinState)
    (left right : List (Entry × Int)) : Prop where
  leftArranged : state.leftArr.Represents left
  rightArranged : state.rightArr.Represents right
  leftStored : ∀ row ∈ left, Stored leftFields row.1.rowBytes
  rightStored : ∀ row ∈ right, Stored rightFields row.1.rowBytes
  leftStaged : ∀ row ∈ state.leftStaged.rows, Stored leftFields row.1.rowBytes
  rightStaged : ∀ row ∈ state.rightStaged.rows, Stored rightFields row.1.rowBytes

section Epoch

variable {op : OuterJoinOp} {leftFields rightFields : List Field} {state : OuterJoinState}
  {left right : List (Entry × Int)}

theorem stored_of_probe {entries : List (Entry × Int)}
    (models : arr.Represents entries) (stored : ∀ row ∈ entries, Stored fields row.1.rowBytes)
    {joinKey : Bytes} (probed : row ∈ arr.probe joinKey) : Stored fields row.1 := by
  obtain ⟨fed, isFed, _, same⟩ := models.mem_of_probe probed
  rw [← same]
  exact stored fed isFed

/-- The two halves of an output row of the inner part. -/
def halves (op : OuterJoinOp) (left right : Bytes) : Int64Row × Int64Row :=
  (decode op.leftNCols left, decode op.rightNCols right)

/-- The halves of a left row without a match. -/
def rightPadded (op : OuterJoinOp) (left : Bytes) : Int64Row × Int64Row :=
  (decode op.leftNCols left, replicate op.rightNCols none)

def leftPadded (op : OuterJoinOp) (right : Bytes) : Int64Row × Int64Row :=
  (replicate op.leftNCols none, decode op.rightNCols right)

/-- The output row of two halves. -/
def glue (row : (Int64Row × Int64Row) × Int) : Int64Row × Int := (row.1.1 ++ row.1.2, row.2)

variable (sides : op.Int64Sides leftFields rightFields)

include sides

theorem joinBytes_yields {own other : Bytes × Int} (ownStored : Stored leftFields own.1)
    (otherStored : Stored rightFields other.1) :
    Yields (op.joinBytes own other) (· = (op.halves own.1 other.1, own.2 * other.2)) := by
  unfold joinBytes
  rw [ownStored.deserialize sides.left.width, otherStored.deserialize sides.right.width]
  exact (yields_mulI64 _ _).bindEq (Meets.pure rfl)

private theorem width_of_joins (joins : ¬ Filters op.kind) : op.leftNCols + op.rightNCols =
      (op.outputSchema leftFields rightFields).length := by
  rw [outputSchema_length, if_neg joins, sides.left.width, sides.right.width]

theorem outputSchema_ne_nil : op.outputSchema leftFields rightFields ≠ [] := by
  have positive : 0 < op.leftNCols := by
    obtain ⟨column, mem⟩ := exists_mem_of_ne_nil _ sides.left.keys.1
    exact (sides.left.keys.2 column mem).pos
  rw [← length_pos_iff, outputSchema_length, sides.left.width]
  omega

private theorem computeInnerJoinOutput_yields (joins : ¬ Filters op.kind)
    (ready : Ready leftFields rightFields state left right) :
    Yields (op.computeInnerJoinOutput state (stagedRowsByKey state.rightStaged.rows)
        (op.outputSchema leftFields rightFields))
      fun batch => Emits (op.outputSchema leftFields rightFields) [batch]
        ((joinDeltas op.halves state.leftArr state.rightArr state.leftStaged.rows
          state.rightStaged.rows).map glue) := by
  refine Meets.bindEq (show Yields _ (· = state.leftStaged.rows.map fun row =>
    (state.rightArr.probe row.1.joinKey).map fun other =>
      (op.halves row.1.rowBytes other.1, row.2 * other.2)) from Meets.mapM ?_) ?_
  · exact fun row mem => Meets.mapM fun other probed =>
      joinBytes_yields sides (ready.leftStaged row mem)
        (stored_of_probe ready.rightArranged ready.rightStored probed)
  refine Meets.bindEq (show Yields _ (· = state.rightStaged.rows.map fun row =>
    (state.leftArr.probe row.1.joinKey).map fun other =>
      (op.halves other.1 row.1.rowBytes, row.2 * other.2)) from Meets.mapM ?_) ?_
  · refine fun row mem => Meets.mapM fun other probed =>
      (joinBytes_yields sides
        (stored_of_probe ready.leftArranged ready.leftStored probed)
        (ready.rightStaged row mem)).weaken ?_
    rintro _ rfl
    rw [Int.mul_comm]
  refine Meets.bindEq (show Yields _ (· = state.leftStaged.rows.map fun row =>
    (state.rightStaged.rows.filter fun other => other.1.joinKey = row.1.joinKey).map fun other =>
      (op.halves row.1.rowBytes other.1.rowBytes, row.2 * other.2)) from Meets.mapM ?_) ?_
  · intro row mem
    rw [stagedRowsByKey, HashMap.lookup_groupBy, mapM_map]
    exact Meets.mapM fun other inBucket => joinBytes_yields sides (ready.leftStaged row mem)
      (ready.rightStaged other (mem_of_mem_filter inBucket))
  refine makeOutputBatch_yields (width_of_joins sides joins)
    (outputSchema_ne_nil sides) ?_ (by simp) (by simp)
  intro row mem
  obtain ⟨own, other, ownStored, otherStored, same⟩ := exists_of_mem_joinDeltas op.halves
    ready.leftStaged ready.rightStaged
    (fun _ _ => stored_of_probe ready.leftArranged ready.leftStored)
    (fun _ _ => stored_of_probe ready.rightArranged ready.rightStored) mem
  rw [same, outputSchema, outputSchema_eq, if_neg joins]
  exact conforms_append (conforms_columns sides.left.typed 0 (ownStored.conforms sides.left.width))
    (conforms_columns sides.right.typed 0 (otherStored.conforms sides.right.width))

theorem innerOutput_yields (joins : ¬ Filters op.kind)
    (ready : Ready leftFields rightFields state left right) :
    Yields (op.innerOutput state (op.outputSchema leftFields rightFields))
      fun batches => Emits (op.outputSchema leftFields rightFields) batches
        ((joinDeltas op.halves state.leftArr state.rightArr state.leftStaged.rows
          state.rightStaged.rows).map glue) := by
  refine (computeInnerJoinOutput_yields sides joins ready).bind ?_
  intro inner emits
  split
  · next hollow =>
    refine ⟨by simp, ?_⟩
    rw [← emits.2]
    simpa using hollow
  · exact emits

/-- A pad of one side: it shows stored rows in a shape, and rows of the shape make a batch. -/
structure Pads (op : OuterJoinOp) (fields schema : List Field)
    (pad : Bytes × Int → Exec ((Int64Row × Int64Row) × Int)) (shape : Bytes → Int64Row × Int64Row)
    (leftIsNull rightIsNull : Bool) : Prop where
  shows : ∀ row, Stored fields row.1 → Yields (pad row) (· = (shape row.1, row.2))
  batch : ∀ rows, (∀ row ∈ rows, ∃ bytes, Stored fields bytes ∧ row.1 = shape bytes) →
    Yields (pushNonempty rows (op.makeOutputBatch · schema leftIsNull rightIsNull))
      fun batches => Emits schema batches (rows.map glue)

omit sides in
theorem padTransition_yields {α : Type} {pad : Bytes × Int → Exec (α × Int)} {shape : Bytes → α}
    (pads : Yields (pad row) (· = (shape row.1, row.2))) (wasUnmatched : Bool) :
    Yields (padTransition pad wasUnmatched row) (· = signed shape (-1) wasUnmatched row) := by
  unfold padTransition signed
  refine pads.bindEq ?_
  cases wasUnmatched with
  | true => exact (yields_negI64 row.2).bindEq (Meets.pure (by simp))
  | false => exact Meets.ok (by simp)

omit sides

namespace Pads

variable {schema : List Field} {pad : Bytes × Int → Exec ((Int64Row × Int64Row) × Int)}
  {shape : Bytes → Int64Row × Int64Row} {leftIsNull rightIsNull : Bool}
  (pads : op.Pads fields schema pad shape leftIsNull rightIsNull)
  (deltas weights : HashMap Bytes Int) {entries : List (Entry × Int)}
  (stored : ∀ row ∈ entries, Stored fields row.1.rowBytes)

include pads stored

theorem transitions_emit (models : arr.Represents entries) :
    Yields (transitions deltas weights arr.probe (padTransition pad) >>=
        (pushNonempty · (op.makeOutputBatch · schema leftIsNull rightIsNull)))
      fun batches => Emits schema batches
        ((transitionRows deltas weights arr.probe (signed shape (-1))).map glue) := by
  have probed := fun joinKey row (inProbe : row ∈ arr.probe joinKey) =>
    stored_of_probe models stored inProbe
  refine (transitions_yields fun wasUnmatched joinKey row inProbe =>
    padTransition_yields (pads.shows row (probed joinKey row inProbe)) wasUnmatched).bindEq ?_
  refine pads.batch _ fun row mem => ?_
  obtain ⟨_, joinKey, stored, inProbe, rfl⟩ := mem_transitionRows mem
  exact ⟨stored.1, probed joinKey stored inProbe, rfl⟩

theorem arrivals_emit : Yields (arrivals entries deltas weights (fun weight => weight = 0) pad >>=
        (pushNonempty · (op.makeOutputBatch · schema leftIsNull rightIsNull)))
      fun batches => Emits schema batches
        ((arrivalRows deltas weights entries (fun weight => weight = 0) shape).map glue) := by
  refine (arrivals_yields fun row mem => pads.shows _ (stored row mem)).bindEq ?_
  refine pads.batch _ fun row mem => ?_
  obtain ⟨entry, inStaged, same⟩ := mem_arrivalRows mem
  exact ⟨entry.1.rowBytes, stored entry inStaged, same⟩

end Pads

include sides

/-- A pad whose rows have the columns of the schema, with one side all NULL. -/
private theorem pads_of_conforms (joins : ¬ Filters op.kind)
    {pad : Bytes × Int → Exec ((Int64Row × Int64Row) × Int)} {shape : Bytes → Int64Row × Int64Row}
    {leftIsNull rightIsNull : Bool}
    (shows : ∀ row, Stored fields row.1 → Yields (pad row) (· = (shape row.1, row.2)))
    (conforms : ∀ bytes, Stored fields bytes → Conforms (op.outputSchema leftFields rightFields)
      (Int64Row.cells ((shape bytes).1 ++ (shape bytes).2)))
    (leftMasked : leftIsNull = true → ∀ bytes, (shape bytes).1 = replicate op.leftNCols none)
    (rightMasked : rightIsNull = true → ∀ bytes, (shape bytes).2 = replicate op.rightNCols none) :
    op.Pads fields (op.outputSchema leftFields rightFields) pad shape leftIsNull rightIsNull := by
  refine ⟨shows, fun rows shaped => pushNonempty_yields (by simp +contextual)
    (makeOutputBatch_yields (width_of_joins sides joins) (outputSchema_ne_nil sides) ?_ ?_ ?_)⟩
  · intro row mem
    obtain ⟨bytes, stored, same⟩ := shaped row mem
    exact same ▸ conforms bytes stored
  · intro isNull row mem
    obtain ⟨bytes, _, same⟩ := shaped row mem
    exact same ▸ leftMasked isNull bytes
  · intro isNull row mem
    obtain ⟨bytes, _, same⟩ := shaped row mem
    exact same ▸ rightMasked isNull bytes

theorem pads_right (padded : op.kind = .left ∨ op.kind = .full) :
    op.Pads leftFields (op.outputSchema leftFields rightFields) op.padRight
      op.rightPadded false true := by
  have joins : ¬ Filters op.kind := by rcases padded with isKind | isKind <;> rw [isKind] <;> decide
  refine pads_of_conforms sides joins (fun row stored => ?_) (fun bytes stored => ?_) nofun
    fun _ _ => rfl
  · unfold padRight
    rw [stored.deserialize sides.left.width]
    exact Meets.ok rfl
  · rw [outputSchema, outputSchema_eq, if_neg joins, decide_eq_true padded, rightPadded,
      ← sides.right.width]
    exact conforms_append (conforms_columns sides.left.typed 0 (stored.conforms sides.left.width))
      (conforms_nulls 0)

theorem pads_left (padded : op.kind = .right ∨ op.kind = .full) :
    op.Pads rightFields (op.outputSchema leftFields rightFields) op.padLeft
      op.leftPadded true false := by
  have joins : ¬ Filters op.kind := by rcases padded with isKind | isKind <;> rw [isKind] <;> decide
  refine pads_of_conforms sides joins (fun row stored => ?_) (fun bytes stored => ?_)
    (fun _ _ => rfl) nofun
  · unfold padLeft
    rw [stored.deserialize sides.right.width]
    exact Meets.ok rfl
  · rw [outputSchema, outputSchema_eq, if_neg joins, decide_eq_true padded, leftPadded,
      ← sides.left.width]
    exact conforms_append (conforms_nulls 0)
      (conforms_columns sides.right.typed 0 (stored.conforms sides.right.width))

theorem filtered_batch (filters : Filters op.kind) {rows : List (Int64Row × Int)}
    (shaped : ∀ row ∈ rows, ∃ bytes, Stored leftFields bytes ∧ row.1 = decode op.leftNCols bytes) :
    Yields (pushNonempty rows (op.makeSemiBatch · (op.outputSchema leftFields rightFields)))
      fun batches => Emits (op.outputSchema leftFields rightFields) batches rows := by
  have width : op.leftNCols = (op.outputSchema leftFields rightFields).length := by
    rw [outputSchema_length, if_pos filters, sides.left.width, Nat.add_zero]
  have conforms : ∀ row ∈ rows, Conforms (op.outputSchema leftFields rightFields)
      (Int64Row.cells row.1) := by
    intro row mem
    obtain ⟨bytes, stored, same⟩ := shaped row mem
    rw [same, outputSchema, outputSchema_eq, if_pos filters, append_nil]
    exact conforms_columns sides.left.typed 0 (stored.conforms sides.left.width)
  exact pushNonempty_yields id (int64Batch_yields width (outputSchema_ne_nil sides) conforms)

theorem signedRow_yields (stored : Stored leftFields row.1) (sign : Int) :
    Yields (op.signedRow sign row) (· = (decode op.leftNCols row.1, sign * row.2)) := by
  unfold signedRow
  rw [stored.deserialize sides.left.width]
  exact (yields_mulI64 _ _).bindEq (Meets.pure rfl)

theorem leftRow_yields (stored : Stored leftFields row.1) :
    Yields (op.leftRow row) (· = (decode op.leftNCols row.1, row.2)) := by
  unfold leftRow
  rw [stored.deserialize sides.left.width]
  exact Meets.ok rfl

end Epoch

end OuterJoinOp

end RockStream
