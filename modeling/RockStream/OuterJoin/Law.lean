import RockStream.OuterJoin.Emit

/-!
Contract: the laws of the outer, semi and anti joins over staged entries.

Owns:
- `keptSum`, the sum of a test over the entries whose key has a given match status, and
  its change in an epoch: the transitions of arranged rows plus the arrivals;
- the visibility of `NullAwareAnti` and its change;
- what one epoch emits and commits, for every kind, and the invariant of a run.

Does not own: what an entry says about its row.
-/

namespace RockStream

open Lib Lib.Weighted List HashMap

namespace OuterJoinOp

/-! ## Key weights -/

def byKey (entries : List (Entry × Int)) : List (Bytes × Int) :=
  entries.map fun row => (row.1.joinKey, row.2)

@[simp] theorem byKey_append (first second : List (Entry × Int)) :
    byKey (first ++ second) = byKey first ++ byKey second :=
  map_append

theorem deltaByKey_yields (rows : List (Entry × Int)) :
    Yields (deltaByKey rows) fun deltas => Counts deltas (byKey rows) := by
  refine Meets.foldlM (fun done map => Counts map (byKey done)) Counts.empty ?_
  intro done row rest map _ counts
  refine (yields_addI64 _ _).bindEq ?_
  rw [byKey_append]
  exact Meets.pure (counts.insert rfl)

theorem updateKeyWeight_yields (weights deltas : HashMap Bytes Int) (stateBytes : Nat)
    (dirty : HashSet Bytes) :
    Yields (deltas.toPairs.foldlM updateKeyWeight (weights, stateBytes, dirty))
      fun result => Counts result.1 (weights.toPairs ++ deltas.toPairs) := by
  refine Meets.foldlM (fun done (result : HashMap Bytes Int × Nat × HashSet Bytes) =>
    Counts result.1 (weights.toPairs ++ done)) (by simpa using Counts.toPairs weights) ?_
  rintro done pair rest ⟨current, currentBytes, currentDirty⟩ _ held
  refine (yields_addI64 _ _).bindEq ?_
  rw [← append_assoc]
  split
  · next vanished => exact Meets.pure (held.erase vanished)
  · exact Meets.pure (held.insert rfl)

theorem sumValues_yields {deltas : HashMap Bytes Int} {rows : List (Bytes × Int)}
    (counts : Counts deltas rows) :
    Yields (sumValues deltas) (· = integrate (fun _ => 1) rows) := by
  have looped : Yields (sumValues deltas) (· = deltas.values.sum) := by
    refine Meets.foldlM (fun done total => total = done.sum) rfl ?_
    rintro done value rest _ _ rfl
    refine (yields_addI64 _ _).weaken ?_
    simp
  refine looped.weaken ?_
  rw [← counts.integrate_toPairs]
  simp [integrate, values, toPairs, Function.comp_def]

/-! ## Rows kept by the match status of their key -/

/-- The sum of a test over the entries whose key weight on the other side is kept. -/
def keptSum (keep : Int → Bool) (test : Bytes → Int) (own other : List (Entry × Int)) : Int :=
  integrate (fun entry =>
    if keep (weight (byKey other) entry.joinKey) then test entry.rowBytes else 0) own

/-- One for a key without a match. -/
def unmatched (keyWeight : Int) : Int := if keyWeight = 0 then 1 else 0

def matchChange (weights : HashMap Bytes Int) (key : Bytes) (delta : Int) : Int :=
  unmatched ((weights.lookup key).getD 0) - unmatched ((weights.lookup key).getD 0 + delta)

section Transitions

variable {α : Type} {arr : Arrangement} {entries : List (Entry × Int)}
  (deltas weights : HashMap Bytes Int) (test : Bytes → Int) (sign : Int)
variable {value : Bool → Bytes × Int → α} {sum : α → Int} {keep : Int → Bool}

theorem sum_transitionParts (models : arr.Represents entries) {part : Bytes × Int → Int}
    (parts : ∀ pair, part pair =
      sign * matchChange weights pair.1 pair.2 * integrate test (arr.probe pair.1)) :
    (deltas.toPairs.map part).sum = integrate (fun entry => sign * matchChange weights entry.joinKey
      ((deltas.lookup entry.joinKey).getD 0) * test entry.rowBytes) entries := by
  have spread : ∀ pair, part pair = integrate (fun entry =>
      sign * matchChange weights pair.1 pair.2 *
        if entry.joinKey = pair.1 then test entry.rowBytes else 0) entries := by
    intro pair
    rw [parts, models.probe_sum, integrate_mul_left]
  rw [map_congr_left fun pair _ => spread pair, sum_toPairs, sumOver_integrate]
  apply integrate_congr
  intro row _
  congr 1
  have single := sumOver_single (fun delta =>
    sign * matchChange weights row.1.joinKey delta * test row.1.rowBytes) deltas row.1.joinKey
  refine Eq.trans (sumOver_congr fun key delta _ => ?_) (single.trans ?_)
  · by_cases same : key = row.1.joinKey
    · subst same
      simp
    · simp [same, Ne.symm same]
  · cases deltas.lookup row.1.joinKey <;> simp [matchChange]

private theorem integrate_transitionPart
    (values : ∀ wasUnmatched row, sum (value wasUnmatched row) =
      (if wasUnmatched then sign else -sign) * (test row.1 * row.2)) (pair : Bytes × Int) :
    ((transitionPart weights arr.probe value pair).map sum).sum =
      sign * matchChange weights pair.1 pair.2 * integrate test (arr.probe pair.1) := by
  have scaled : ∀ wasUnmatched,
      ((arr.probe pair.1).map fun row => sum (value wasUnmatched row)).sum =
      (if wasUnmatched then sign else -sign) * integrate test (arr.probe pair.1) := by
    intro wasUnmatched
    simp only [values, sum_map_mul_left]
    rfl
  unfold transitionPart matchChange unmatched
  by_cases old : (weights.lookup pair.1).getD 0 = 0
  · by_cases new : pair.2 = 0
    · simp [old, new]
    · simp [old, new, Function.comp_def, scaled]
  · by_cases new : (weights.lookup pair.1).getD 0 + pair.2 = 0
    · simp [old, new, Function.comp_def, scaled]
    · simp [old, new]

theorem sum_transitionRows (models : arr.Represents entries)
    (values : ∀ wasUnmatched row, sum (value wasUnmatched row) =
      (if wasUnmatched then sign else -sign) * (test row.1 * row.2)) :
    ((transitionRows deltas weights arr.probe value).map sum).sum =
      integrate (fun entry => sign * matchChange weights entry.joinKey
        ((deltas.lookup entry.joinKey).getD 0) * test entry.rowBytes) entries := by
  have flattened : ((transitionRows deltas weights arr.probe value).map sum).sum =
      (deltas.toPairs.map fun pair =>
        ((transitionPart weights arr.probe value pair).map sum).sum).sum := by
    unfold transitionRows
    rw [map_flatMap, flatMap_def, sum_flatten, map_map]
    rfl
  rw [flattened]
  exact sum_transitionParts deltas weights test sign models
    (integrate_transitionPart weights test sign values)

theorem integrate_arrivalRows (keep : Int → Bool) (shape : Bytes → α) (measure : α → Int)
    (staged : List (Entry × Int)) :
    integrate measure (arrivalRows deltas weights staged keep shape) =
      integrate (fun entry => if keep ((weights.lookup entry.joinKey).getD 0 +
        (deltas.lookup entry.joinKey).getD 0) then measure (shape entry.rowBytes)
          else 0) staged := by
  rw [arrivalRows, integrate_flatMap, integrate]
  refine congrArg sum (map_congr_left fun row _ => ?_)
  unfold arrivalPart
  split <;> simp

variable {deltas weights} {other delta : List (Entry × Int)}

/-- The change of a kept sum in an epoch: the transitions of the arranged rows and the arrivals. -/
theorem keptSum_step (models : arr.Represents entries) (counts : Counts weights (byKey other))
    (deltaCounts : Counts deltas (byKey delta))
    (tracks : ∀ old new, sign * (unmatched old - unmatched new) =
      (if keep new then 1 else 0) - if keep old then 1 else 0)
    (shape : Bytes → α) (measure : α → Int) (staged : List (Entry × Int)) :
    keptSum keep (fun bytes => measure (shape bytes)) (entries ++ staged) (other ++ delta) =
      keptSum keep (fun bytes => measure (shape bytes)) entries other +
        (integrate measure (transitionRows deltas weights arr.probe (signed shape sign)) +
          integrate measure (arrivalRows deltas weights staged keep shape)) := by
  have newWeight : ∀ key, weight (byKey (other ++ delta)) key =
      (weights.lookup key).getD 0 + (deltas.lookup key).getD 0 := by
    intro key
    rw [byKey_append, weight_append, counts key, deltaCounts key]
  have changed : integrate measure (transitionRows deltas weights arr.probe (signed shape sign)) =
      keptSum keep (fun bytes => measure (shape bytes)) entries (other ++ delta) -
        keptSum keep (fun bytes => measure (shape bytes)) entries other := by
    unfold keptSum
    rw [← integrate_sub]
    refine (sum_transitionRows deltas weights (fun bytes => measure (shape bytes)) sign models
      fun wasUnmatched row => ?_).trans (integrate_congr fun row _ => ?_)
    · simp only [signed]
      ring
    · rw [newWeight, matchChange, ← counts, tracks]
      split <;> split <;> simp
  rw [changed, integrate_arrivalRows]
  unfold keptSum
  rw [integrate_append]
  simp only [newWeight]
  ring

end Transitions

/-! ## NOT IN visibility -/

/-- Whether a stored row has NULL in its key. -/
def nullKey (keyCols : List Nat) (nCols : Nat) (bytes : Bytes) : Bool :=
  keyCols.any fun column => (decode nCols bytes)[column]?.join.isNone

/-- Whether `NullAwareAnti` shows a left row: a NULL probe needs an empty right side, another probe
a right side without NULL keys and without a match. -/
def visible (op : OuterJoinOp) (rightNull rightEmpty : Bool) (keyWeight : Int) (bytes : Bytes) :
    Bool :=
  if nullKey op.leftKeyCols op.leftNCols bytes then rightEmpty
  else !rightNull && decide (keyWeight = 0)

def totalSum (entries : List (Entry × Int)) : Int := integrate (fun _ => 1) entries

def nullSum (op : OuterJoinOp) (entries : List (Entry × Int)) : Int :=
  integrate (fun entry => if nullKey op.rightKeyCols op.rightNCols entry.rowBytes then 1 else 0)
    entries

theorem totalSum_append (first second : List (Entry × Int)) :
    totalSum (first ++ second) = totalSum first + totalSum second :=
  integrate_append _ _ _

theorem nullSum_append (op : OuterJoinOp) (first second : List (Entry × Int)) :
    op.nullSum (first ++ second) = op.nullSum first + op.nullSum second :=
  integrate_append _ _ _

theorem integrate_byKey (entries : List (Entry × Int)) :
    integrate (fun _ => 1) (byKey entries) = totalSum entries :=
  integrate_map Entry.joinKey _ entries

section

variable (op : OuterJoinOp) (test : Int64Row → Int) (left right : List (Entry × Int))

def visibleSum : Int :=
  integrate (fun entry =>
    if op.visible (decide (0 < op.nullSum right)) (decide (totalSum right = 0))
        (weight (byKey right) entry.joinKey) entry.rowBytes then
      test (decode op.leftNCols entry.rowBytes)
    else 0) left

/-! ## What a kind sums to -/

/-- The test of an output row made of two halves. -/
def onHalves (test : Int64Row → Int) (halves : Int64Row × Int64Row) : Int :=
  test (halves.1 ++ halves.2)

def innerSum : Int :=
  pairing (Entry.matching fun own other => onHalves test (op.halves own other)) left right

/-- The sum of a test over left entries without a match, padded. -/
def rightPaddedSum : Int :=
  keptSum (fun keyWeight => keyWeight = 0) (fun bytes => onHalves test (op.rightPadded bytes))
    left right

def leftPaddedSum : Int :=
  keptSum (fun keyWeight => keyWeight = 0) (fun bytes => onHalves test (op.leftPadded bytes))
    right left

/-- The sum of a test over the batch result on accumulated entries. -/
def entrySum : Int :=
  match op.kind with
  | .left => op.innerSum test left right + op.rightPaddedSum test left right
  | .right => op.innerSum test left right + op.leftPaddedSum test left right
  | .full =>
    op.innerSum test left right +
      (op.rightPaddedSum test left right + op.leftPaddedSum test left right)
  | .semi =>
    keptSum (fun keyWeight => keyWeight ≠ 0) (fun bytes => test (decode op.leftNCols bytes))
      left right
  | .anti =>
    keptSum (fun keyWeight => keyWeight = 0) (fun bytes => test (decode op.leftNCols bytes))
      left right
  | .nullAwareAnti => op.visibleSum test left right

end

/-! ## The outputs of a kind -/

/-- The weights an operator keeps beside its arrangements, for the entries they were fed. -/
structure Tracks (op : OuterJoinOp) (state : OuterJoinState) (left right : List (Entry × Int)) :
    Prop where
  rightKeys : op.kind ≠ .right → Counts state.rightKeyWeight (byKey right)
  leftKeys : op.kind = .right ∨ op.kind = .full → Counts state.leftKeyWeight (byKey left)
  total : op.kind = .nullAwareAnti → state.rightTotalWeight = totalSum right
  null : op.kind = .nullAwareAnti → state.rightNullWeight = op.nullSum right

/-- What a kind computes: batches that sum to the change of the batch result, and the delta maps. -/
structure KindSpec (op : OuterJoinOp) (schema : List Field) (state : OuterJoinState)
    (left right : List (Entry × Int)) (result : EpochResult) : Prop where
  emits : ∃ rows, Emits schema result.outputs rows ∧
    ∀ test, op.entrySum test (left ++ state.leftStaged.rows) (right ++ state.rightStaged.rows) =
      op.entrySum test left right + integrate test rows
  rightDeltas : op.kind ≠ .right → Counts result.deltaRw (byKey state.rightStaged.rows)
  leftDeltas : match result.deltaLw with
    | some deltaLw => Counts deltaLw (byKey state.leftStaged.rows)
    | none => ¬ (op.kind = .right ∨ op.kind = .full)

theorem integrate_glue (test : Int64Row → Int) (rows : List ((Int64Row × Int64Row) × Int)) :
    integrate test (rows.map glue) = integrate (onHalves test) rows :=
  integrate_map (fun halves : Int64Row × Int64Row => halves.1 ++ halves.2) test rows

theorem tracks_unmatched (old new : Int) : -1 * (unmatched old - unmatched new) =
      (if decide (new = 0) then 1 else 0) - if decide (old = 0) then 1 else 0 := by
  simp only [unmatched, decide_eq_true_eq]
  ring

theorem tracks_matched (old new : Int) : 1 * (unmatched old - unmatched new) =
      (if decide (new ≠ 0) then 1 else 0) - if decide (old ≠ 0) then 1 else 0 := by
  unfold unmatched
  by_cases isOld : old = 0 <;> by_cases isNew : new = 0 <;> simp [isOld, isNew]

section Kinds

variable {op : OuterJoinOp} {leftFields rightFields : List Field} {state : OuterJoinState}
  {left right : List (Entry × Int)}
  (sides : op.Int64Sides leftFields rightFields)
  (ready : Ready leftFields rightFields state left right) (tracks : op.Tracks state left right)

theorem innerSum_step (ready : Ready leftFields rightFields state left right)
    (test : Int64Row → Int) :
    op.innerSum test (left ++ state.leftStaged.rows) (right ++ state.rightStaged.rows) =
      op.innerSum test left right + integrate test ((joinDeltas op.halves state.leftArr
        state.rightArr state.leftStaged.rows state.rightStaged.rows).map glue) := by
  rw [integrate_glue]
  exact integrate_joinDeltas op.halves (onHalves test) ready.leftArranged ready.rightArranged _ _

theorem paddedSum_step {arr : Arrangement} {own other staged delta : List (Entry × Int)}
    {deltas weights : HashMap Bytes Int} (models : arr.Represents own)
    (counts : Counts weights (byKey other)) (deltaCounts : Counts deltas (byKey delta))
    (padded : Bytes → Int64Row × Int64Row) (test : Int64Row → Int) :
    keptSum (fun keyWeight => keyWeight = 0) (fun bytes => onHalves test (padded bytes))
        (own ++ staged) (other ++ delta) =
      keptSum (fun keyWeight => keyWeight = 0)
        (fun bytes => onHalves test (padded bytes)) own other +
        (integrate test ((transitionRows deltas weights arr.probe (signed padded (-1))).map glue) +
          integrate test ((arrivalRows deltas weights staged (fun weight => weight = 0)
            padded).map glue)) := by
  rw [integrate_glue, integrate_glue]
  exact keptSum_step (-1) models counts deltaCounts tracks_unmatched padded (onHalves test) staged

include sides ready tracks

theorem leftOutputs_yields (isLeft : op.kind = .left) :
    Yields (op.leftOutputs state (op.outputSchema leftFields rightFields))
      (op.KindSpec (op.outputSchema leftFields rightFields) state left right) := by
  have joins : ¬ Filters op.kind := by rw [isLeft]; decide
  have pads := pads_right sides (.inl isLeft)
  refine (deltaByKey_yields state.rightStaged.rows).bind fun deltaRw deltaCounts => ?_
  refine (innerOutput_yields sides joins ready).bind fun inner innerEmits => ?_
  refine (pads.transitions_emit deltaRw _ ready.leftStored ready.leftArranged).bind
    fun padded paddedEmits => ?_
  refine (pads.arrivals_emit deltaRw _ ready.leftStaged).bind fun arrived arrivedEmits => ?_
  refine Meets.pure ⟨⟨_, (innerEmits.append paddedEmits).append arrivedEmits, fun test => ?_⟩,
    fun _ => deltaCounts, by simp [isLeft]⟩
  have counts := tracks.rightKeys (by simp [isLeft])
  simp only [entrySum, isLeft, innerSum_step ready, rightPaddedSum,
    paddedSum_step ready.leftArranged counts deltaCounts, integrate_append]
  ring

theorem rightOutputs_yields (isRight : op.kind = .right) :
    Yields (op.rightOutputs state (op.outputSchema leftFields rightFields))
      (op.KindSpec (op.outputSchema leftFields rightFields) state left right) := by
  have joins : ¬ Filters op.kind := by rw [isRight]; decide
  have pads := pads_left sides (.inl isRight)
  refine (deltaByKey_yields state.leftStaged.rows).bind fun deltaLw deltaCounts => ?_
  refine (innerOutput_yields sides joins ready).bind fun inner innerEmits => ?_
  refine (pads.transitions_emit deltaLw _ ready.rightStored ready.rightArranged).bind
    fun padded paddedEmits => ?_
  refine (pads.arrivals_emit deltaLw _ ready.rightStaged).bind fun arrived arrivedEmits => ?_
  refine Meets.pure ⟨⟨_, (innerEmits.append paddedEmits).append arrivedEmits, fun test => ?_⟩,
    fun notRight => absurd isRight notRight, deltaCounts⟩
  have counts := tracks.leftKeys (.inl isRight)
  simp only [entrySum, isRight, innerSum_step ready, leftPaddedSum,
    paddedSum_step ready.rightArranged counts deltaCounts, integrate_append]
  ring

theorem fullOutputs_yields (isFull : op.kind = .full) :
    Yields (op.fullOutputs state (op.outputSchema leftFields rightFields))
      (op.KindSpec (op.outputSchema leftFields rightFields) state left right) := by
  have joins : ¬ Filters op.kind := by rw [isFull]; decide
  have padsRight := pads_right sides (.inr isFull)
  have padsLeft := pads_left sides (.inr isFull)
  refine (deltaByKey_yields state.rightStaged.rows).bind fun deltaRw rightDeltas => ?_
  refine (deltaByKey_yields state.leftStaged.rows).bind fun deltaLw leftDeltas => ?_
  refine (innerOutput_yields sides joins ready).bind fun inner innerEmits => ?_
  refine (padsRight.transitions_emit deltaRw _ ready.leftStored ready.leftArranged).bind
    fun leftPadded leftPaddedEmits => ?_
  refine (padsLeft.transitions_emit deltaLw _ ready.rightStored ready.rightArranged).bind
    fun rightPadded rightPaddedEmits => ?_
  refine (padsRight.arrivals_emit deltaRw _ ready.leftStaged).bind
    fun leftArrived leftArrivedEmits => ?_
  refine (padsLeft.arrivals_emit deltaLw _ ready.rightStaged).bind
    fun rightArrived rightArrivedEmits => ?_
  refine Meets.pure ⟨⟨_, (((innerEmits.append leftPaddedEmits).append rightPaddedEmits).append
    leftArrivedEmits).append rightArrivedEmits, fun test => ?_⟩, fun _ => rightDeltas, leftDeltas⟩
  have rightCounts := tracks.rightKeys (by simp [isFull])
  have leftCounts := tracks.leftKeys (.inr isFull)
  simp only [entrySum, isFull, innerSum_step ready, rightPaddedSum, leftPaddedSum,
    paddedSum_step ready.leftArranged rightCounts rightDeltas,
    paddedSum_step ready.rightArranged leftCounts leftDeltas, integrate_append]
  ring

/-- The shared body of semi and anti joins emits the change of its kept sum. -/
theorem filterOutputs_yields (filters : Filters op.kind) {sign : Int}
    (signTracks : ∀ old new, sign * (unmatched old - unmatched new) =
      (if keep new then 1 else 0) - if keep old then 1 else 0)
    (isKept : ∀ test left right, op.entrySum test left right =
      keptSum keep (fun bytes => test (decode op.leftNCols bytes)) left right) :
    Yields (op.filterOutputs keep sign state (op.outputSchema leftFields rightFields))
      (op.KindSpec (op.outputSchema leftFields rightFields) state left right) := by
  have notRight : op.kind ≠ .right := by
    intro isRight
    rw [isRight] at filters
    exact absurd filters (by decide)
  have notFull : ¬ (op.kind = .right ∨ op.kind = .full) := by
    rintro (isKind | isKind) <;> rw [isKind] at filters <;> exact absurd filters (by decide)
  have probed := fun joinKey row (inProbe : row ∈ state.leftArr.probe joinKey) =>
    stored_of_probe ready.leftArranged ready.leftStored inProbe
  refine (deltaByKey_yields state.rightStaged.rows).bind fun deltaRw deltaCounts => ?_
  refine Meets.bindEq (show Yields _ (· = transitionRows deltaRw state.rightKeyWeight
    state.leftArr.probe (signed (decode op.leftNCols) sign)) from
      transitions_yields fun wasUnmatched joinKey row inProbe =>
        signedRow_yields sides (probed joinKey row inProbe) _) ?_
  refine (filtered_batch sides filters fun row mem => ?_).bind fun changed changedEmits => ?_
  · obtain ⟨_, joinKey, stored, inProbe, rfl⟩ := mem_transitionRows mem
    exact ⟨stored.1, probed joinKey stored inProbe, rfl⟩
  refine (arrivals_yields fun row mem =>
    leftRow_yields sides (ready.leftStaged row mem)).bindEq ?_
  refine (filtered_batch sides filters fun row mem => ?_).bind fun arrived arrivedEmits => ?_
  · obtain ⟨entry, inStaged, same⟩ := mem_arrivalRows mem
    exact ⟨entry.1.rowBytes, ready.leftStaged entry inStaged, same⟩
  refine Meets.pure ⟨⟨_, changedEmits.append arrivedEmits, fun test => ?_⟩, fun _ => deltaCounts,
    notFull⟩
  rw [isKept, isKept, integrate_append]
  exact keptSum_step sign ready.leftArranged (tracks.rightKeys notRight) deltaCounts signTracks
    (decode op.leftNCols) test _

end Kinds

end OuterJoinOp

end RockStream
