import RockStream.OuterJoin.Law

/-!
Contract: the outputs of a `NullAwareAnti` epoch.

A left row is visible depending on its own key, on whether the right side holds a NULL
key, and on whether it is empty. When one of the two flags changes, every arranged row
is revisited; otherwise only the rows of keys whose match status changes are.

Owns:
- one postcondition for each of the three loops;
- `nullAwareAntiOutputs_yields`: the epoch emits the change of the visible rows.

Does not own: why a right side with a NULL key is not empty.
-/

namespace RockStream

open Lib Lib.Weighted List HashMap

namespace OuterJoinOp

variable {op : OuterJoinOp} {leftFields rightFields : List Field} {state : OuterJoinState}
  {left right : List (Entry × Int)} (deltas : HashMap Bytes Int)
  (oldNull newNull oldEmpty newEmpty : Bool)

section Loops

variable (leftSide : Int64Side leftFields op.leftKeyCols op.leftNCols)
  (ready : Ready leftFields rightFields state left right)

include leftSide in
theorem hasNullKey_of_stored {bytes : Bytes} (stored : Stored leftFields bytes) :
    op.hasNullKey (decode op.leftNCols bytes) =
      .ok (nullKey op.leftKeyCols op.leftNCols bytes) := by
  apply Loop.anyM_of_ok
  intro column mem
  have inside : column < (decode op.leftNCols bytes).length := by
    rw [stored.length leftSide.width]
    exact leftSide.keys.2 column mem
  rw [getElem?_eq_getElem inside]
  rfl

section

variable (op : OuterJoinOp) (state : OuterJoinState)

/-- The visibility of a stored row before the epoch. -/
def wasVisible (oldNull oldEmpty : Bool) (joinKey bytes : Bytes) : Bool :=
  op.visible oldNull oldEmpty ((state.rightKeyWeight.lookup joinKey).getD 0) bytes

def nowVisible (deltas : HashMap Bytes Int)
    (newNull newEmpty : Bool) (joinKey bytes : Bytes) : Bool :=
  op.visible newNull newEmpty ((state.rightKeyWeight.lookup joinKey).getD 0 +
    (deltas.lookup joinKey).getD 0) bytes

def revisitRow (deltas : HashMap Bytes Int) (oldNull newNull oldEmpty newEmpty : Bool)
    (joinKey : Bytes) (row : ArrRow) : List (Int64Row × Int) :=
  let was := op.wasVisible state oldNull oldEmpty joinKey row.rowBytes
  let now := op.nowVisible state deltas newNull newEmpty joinKey row.rowBytes
  if was ≠ now then [(decode op.leftNCols row.rowBytes, row.weight * (now.toInt - was.toInt))]
  else []

def revisitRows (deltas : HashMap Bytes Int)
    (oldNull newNull oldEmpty newEmpty : Bool) : List (Int64Row × Int) :=
  state.leftArr.toPairs.flatMap fun pair => pair.2.values.flatMap
    (op.revisitRow state deltas oldNull newNull oldEmpty newEmpty pair.1)

end

include ready in
private theorem stored_of_bucket {pair : Bytes × HashMap (BitVec 128) ArrRow}
    (inArr : pair ∈ state.leftArr.toPairs)
    {row : ArrRow} (inBucket : row ∈ pair.2.values) : Stored leftFields row.rowBytes := by
  obtain ⟨rowId, found⟩ := mem_values.mp inBucket
  have bucket := mem_toPairs.mp inArr
  have stores : state.leftArr.find pair.1 rowId = some row := by
    simp [Arrangement.find, bucket, found]
  obtain ⟨fed, isFed, same⟩ := ready.leftArranged.mem_of_find stores
  have fedStored := ready.leftStored fed isFed
  rw [same] at fedStored
  exact fedStored

private theorem changed_yields (was now : Bool) (values : Int64Row) (weight : Int) :
    Yields (if was ≠ now then do
        let weight ← mulI64 weight (now.toInt - was.toInt)
        pure [(values, weight)]
      else pure [])
      (· = if was ≠ now then [(values, weight * (now.toInt - was.toInt))] else []) := by
  split
  · exact (yields_mulI64 _ _).bindEq (Meets.pure rfl)
  · exact Meets.pure rfl

include leftSide ready in
theorem nullAwareRevisit_yields :
    Yields (op.nullAwareRevisit state deltas oldNull newNull oldEmpty newEmpty)
      (· = op.revisitRows state deltas oldNull newNull oldEmpty newEmpty) := by
  refine Meets.mapM_flatten fun pair inArr => (yields_addI64 _ _).bindEq
    (Meets.mapM_flatten fun row inBucket => ?_)
  have stored := stored_of_bucket ready inArr inBucket
  rw [stored.deserialize leftSide.width]
  show Yields (op.hasNullKey (decode op.leftNCols row.rowBytes) >>= _) _
  rw [hasNullKey_of_stored leftSide stored]
  exact changed_yields (op.wasVisible state oldNull oldEmpty pair.1 row.rowBytes)
    (op.nowVisible state deltas newNull newEmpty pair.1 row.rowBytes) _ _

/-- What a changed key emits for one row. -/
def probeRow (op : OuterJoinOp) (wasUnmatched : Bool) (row : Bytes × Int) : List (Int64Row × Int) :=
  if nullKey op.leftKeyCols op.leftNCols row.1 then []
  else [(decode op.leftNCols row.1, (if wasUnmatched then -1 else 1) * row.2)]

include leftSide ready in
theorem nullAwareTransitions_yields : Yields (op.nullAwareTransitions state deltas)
      (· = (transitionRows deltas state.rightKeyWeight state.leftArr.probe
        op.probeRow).flatten) := by
  refine (transitions_yields fun wasUnmatched joinKey row inProbe => ?_).bindEq (Meets.pure rfl)
  have stored := stored_of_probe ready.leftArranged ready.leftStored inProbe
  rw [stored.deserialize leftSide.width]
  show Yields (op.hasNullKey (decode op.leftNCols row.1) >>= _) _
  rw [hasNullKey_of_stored leftSide stored]
  show Yields (if nullKey op.leftKeyCols op.leftNCols row.1 = true then _ else _) _
  unfold probeRow
  split
  · exact Meets.pure rfl
  · exact (yields_mulI64 _ _).bindEq (Meets.pure rfl)

def arriveRow (op : OuterJoinOp) (state : OuterJoinState) (deltas : HashMap Bytes Int)
    (newNull newEmpty : Bool) (row : Entry × Int) : List (Int64Row × Int) :=
  if op.nowVisible state deltas newNull newEmpty row.1.joinKey row.1.rowBytes then
    [(decode op.leftNCols row.1.rowBytes, row.2)]
  else []

include leftSide ready in
theorem nullAwareArrivals_yields : Yields (op.nullAwareArrivals state deltas newNull newEmpty)
      (· = state.leftStaged.rows.flatMap (op.arriveRow state deltas newNull newEmpty)) := by
  refine Meets.mapM_flatten fun row mem => ?_
  have stored := ready.leftStaged row mem
  rw [stored.deserialize leftSide.width]
  show Yields (op.hasNullKey (decode op.leftNCols row.1.rowBytes) >>= _) _
  rw [hasNullKey_of_stored leftSide stored]
  unfold arriveRow nowVisible visible
  -- A NULL probe arrives into an empty right side only.
  cases isNull : nullKey op.leftKeyCols op.leftNCols row.1.rowBytes with
  | true =>
    cases newEmpty with
    | true => exact (yields_addI64 _ _).bindEq (Meets.pure rfl)
    | false => exact Meets.pure rfl
  | false =>
    refine (yields_addI64 _ _).bindEq ?_
    show Yields (if (!newNull && _) = true then _ else _) _
    simp only [Bool.false_eq_true, if_false]
    split <;> exact Meets.pure rfl

end Loops

section Sums

variable (test : Int64Row → Int)

def changeSum (op : OuterJoinOp) (state : OuterJoinState) (deltas : HashMap Bytes Int)
    (oldNull newNull oldEmpty newEmpty : Bool) (test : Int64Row → Int)
    (entries : List (Entry × Int)) : Int :=
  integrate (fun entry => test (decode op.leftNCols entry.rowBytes) *
    ((op.nowVisible state deltas newNull newEmpty entry.joinKey entry.rowBytes).toInt -
      (op.wasVisible state oldNull oldEmpty entry.joinKey entry.rowBytes).toInt)) entries

theorem integrate_revisitRows (models : state.leftArr.Represents left) :
    integrate test (op.revisitRows state deltas oldNull newNull oldEmpty newEmpty) =
      op.changeSum state deltas oldNull newNull oldEmpty newEmpty test left := by
  have perRow : ∀ joinKey (row : ArrRow),
      integrate test (op.revisitRow state deltas oldNull newNull oldEmpty newEmpty joinKey row) =
        test (decode op.leftNCols row.rowBytes) *
          ((op.nowVisible state deltas newNull newEmpty joinKey row.rowBytes).toInt -
            (op.wasVisible state oldNull oldEmpty joinKey row.rowBytes).toInt) * row.weight := by
    intro joinKey row
    unfold revisitRow
    cases op.wasVisible state oldNull oldEmpty joinKey row.rowBytes <;>
      cases op.nowVisible state deltas newNull newEmpty joinKey row.rowBytes <;>
      simp [Int.mul_comm]
  unfold changeSum revisitRows
  rw [← models.sums, integrate_flatMap, sum_toPairs]
  apply sumOver_congr
  intro joinKey bucket _
  rw [integrate_flatMap, map_congr_left fun row _ => perRow joinKey row, sum_values]
  rfl

/-- Without a NULL key on the right and with the emptiness unchanged, only the match status of a
key changes what is visible. -/
theorem integrate_probeRows (models : state.leftArr.Represents left) (empty : Bool) :
    integrate test (transitionRows deltas state.rightKeyWeight state.leftArr.probe
        op.probeRow).flatten = op.changeSum state deltas false false empty empty test left := by
  have perRow : ∀ wasUnmatched (row : Bytes × Int), integrate test (op.probeRow wasUnmatched row) =
      (if wasUnmatched then -1 else - -1) * ((if nullKey op.leftKeyCols op.leftNCols row.1 then 0
          else test (decode op.leftNCols row.1)) * row.2) := by
    intro wasUnmatched row
    unfold probeRow
    split
    · simp
    · cases wasUnmatched <;> simp
  rw [integrate_flatten, sum_transitionRows deltas state.rightKeyWeight
    (fun bytes => if nullKey op.leftKeyCols op.leftNCols bytes then 0
      else test (decode op.leftNCols bytes)) (-1) models perRow]
  apply integrate_congr
  intro row _
  unfold nowVisible wasVisible visible matchChange unmatched
  by_cases isNull : nullKey op.leftKeyCols op.leftNCols row.1.rowBytes = true
  · simp [isNull]
  · generalize (state.rightKeyWeight.lookup row.1.joinKey).getD 0 +
      (deltas.lookup row.1.joinKey).getD 0 = new
    generalize (state.rightKeyWeight.lookup row.1.joinKey).getD 0 = old
    by_cases oldZero : old = 0 <;> by_cases newZero : new = 0 <;> simp [isNull, oldZero, newZero]

theorem integrate_arriveRows (staged : List (Entry × Int)) :
    integrate test (staged.flatMap (op.arriveRow state deltas newNull newEmpty)) =
      integrate (fun entry =>
        if op.nowVisible state deltas newNull newEmpty entry.joinKey entry.rowBytes then
          test (decode op.leftNCols entry.rowBytes) else 0) staged := by
  rw [integrate_flatMap, integrate]
  refine congrArg sum (map_congr_left fun row _ => ?_)
  unfold arriveRow
  split <;> simp

/-- With a NULL key on the right before and after, and the emptiness unchanged, nothing changes. -/
theorem changeSum_of_null (empty : Bool) (entries : List (Entry × Int)) :
    op.changeSum state deltas true true empty empty test entries = 0 := by
  apply integrate_eq_zero
  intro row _
  have same : op.nowVisible state deltas true empty row.1.joinKey row.1.rowBytes =
      op.wasVisible state true empty row.1.joinKey row.1.rowBytes := by
    unfold nowVisible wasVisible visible
    simp
  rw [same]
  simp

variable {deltas}

/-- The visible rows after an epoch: those before, the change among them, and the arrivals. -/
theorem visibleSum_step (counts : Counts state.rightKeyWeight (byKey right))
    {delta : List (Entry × Int)} (deltaCounts : Counts deltas (byKey delta))
    (staged : List (Entry × Int)) : op.visibleSum test (left ++ staged) (right ++ delta) =
      op.visibleSum test left right + (op.changeSum state deltas (decide (0 < op.nullSum right))
            (decide (0 < op.nullSum (right ++ delta))) (decide (totalSum right = 0))
            (decide (totalSum (right ++ delta) = 0)) test left + integrate (fun entry =>
            if op.nowVisible state deltas (decide (0 < op.nullSum (right ++ delta)))
                (decide (totalSum (right ++ delta) = 0)) entry.joinKey entry.rowBytes then
              test (decode op.leftNCols entry.rowBytes) else 0) staged) := by
  have newWeight : ∀ key, weight (byKey (right ++ delta)) key =
      (state.rightKeyWeight.lookup key).getD 0 + (deltas.lookup key).getD 0 := by
    intro key
    rw [byKey_append, weight_append, counts key, deltaCounts key]
  unfold visibleSum changeSum nowVisible wasVisible
  rw [integrate_append]
  simp only [newWeight, ← counts _]
  rw [← add_assoc, ← integrate_add]
  congr 1
  apply integrate_congr
  intro row _
  cases op.visible (decide (0 < op.nullSum (right ++ delta)))
      (decide (totalSum (right ++ delta) = 0)) _ row.1.rowBytes <;>
    cases op.visible (decide (0 < op.nullSum right)) (decide (totalSum right = 0)) _
      row.1.rowBytes <;> simp

end Sums

section Outputs

variable (sides : op.Int64Sides leftFields rightFields)
  (ready : Ready leftFields rightFields state left right)

def Decoded (op : OuterJoinOp) (leftFields : List Field) (rows : List (Int64Row × Int)) : Prop :=
  ∀ row ∈ rows, ∃ bytes, Stored leftFields bytes ∧ row.1 = decode op.leftNCols bytes

include sides ready

/-- The arranged rows emit the change among them, whichever loop computes it. -/
private theorem nullAwareArranged_yields (deltas : HashMap Bytes Int)
    (oldNull newNull oldEmpty newEmpty : Bool) :
    Yields (op.nullAwareArranged state deltas oldNull newNull oldEmpty newEmpty)
      fun rows => op.Decoded leftFields rows ∧ ∀ test, integrate test rows =
        op.changeSum state deltas oldNull newNull oldEmpty newEmpty test left := by
  unfold nullAwareArranged
  split
  · refine (nullAwareRevisit_yields deltas oldNull newNull oldEmpty newEmpty sides.left
      ready).weaken ?_
    rintro _ rfl
    refine ⟨fun row mem => ?_, fun test =>
      integrate_revisitRows deltas oldNull newNull oldEmpty newEmpty test ready.leftArranged⟩
    obtain ⟨pair, inArr, inPart⟩ := mem_flatMap.mp mem
    obtain ⟨stored, inBucket, inRow⟩ := mem_flatMap.mp inPart
    simp only [revisitRow] at inRow
    refine ⟨stored.rowBytes, stored_of_bucket ready inArr inBucket, ?_⟩
    split at inRow
    · rw [mem_singleton.mp inRow]
    · cases inRow
  · next unchanged =>
    push Not at unchanged
    obtain ⟨rfl, rfl⟩ := unchanged
    cases oldNull with
    | true =>
      exact Meets.pure ⟨by simp [Decoded], fun test => by
        rw [changeSum_of_null, integrate_nil]⟩
    | false =>
      refine (nullAwareTransitions_yields deltas sides.left ready).weaken ?_
      rintro _ rfl
      refine ⟨fun row mem => ?_, fun test =>
        integrate_probeRows deltas test ready.leftArranged oldEmpty⟩
      obtain ⟨part, inRows, inPart⟩ := mem_flatten.mp mem
      obtain ⟨_, joinKey, stored, inProbe, rfl⟩ := mem_transitionRows inRows
      unfold probeRow at inPart
      refine ⟨stored.1, stored_of_probe ready.leftArranged ready.leftStored inProbe, ?_⟩
      split at inPart
      · cases inPart
      · rw [mem_singleton.mp inPart]

/-- The staged rows emit those visible at the end: none when the right side holds a NULL key, as it
is then not empty. -/
private theorem nullAwareArrived_yields (deltas : HashMap Bytes Int) {newNull newEmpty : Bool}
    (notEmpty : newNull = true → newEmpty = false) :
    Yields (op.nullAwareArrived state deltas newNull newEmpty)
      fun rows => op.Decoded leftFields rows ∧ ∀ test, integrate test rows = integrate (fun entry =>
          if op.nowVisible state deltas newNull newEmpty entry.joinKey entry.rowBytes then
            test (decode op.leftNCols entry.rowBytes) else 0) state.leftStaged.rows := by
  unfold nullAwareArrived
  split
  · next isNull =>
    refine Meets.pure ⟨by simp [Decoded], fun test => ?_⟩
    refine (integrate_eq_zero fun row _ => ?_).symm
    have hidden : op.nowVisible state deltas newNull newEmpty row.1.joinKey row.1.rowBytes =
        false := by
      unfold nowVisible visible
      simp [isNull, notEmpty isNull]
    simp [hidden]
  · refine (nullAwareArrivals_yields deltas newNull newEmpty sides.left ready).weaken ?_
    rintro _ rfl
    refine ⟨fun row mem => ?_, fun test => integrate_arriveRows deltas newNull newEmpty test _⟩
    obtain ⟨entry, inStaged, inPart⟩ := mem_flatMap.mp mem
    unfold arriveRow at inPart
    refine ⟨entry.1.rowBytes, ready.leftStaged entry inStaged, ?_⟩
    split at inPart
    · rw [mem_singleton.mp inPart]
    · cases inPart

/-- A `NullAwareAnti` epoch emits the change of the visible rows. -/
theorem nullAwareAntiOutputs_yields (tracks : op.Tracks state left right)
    (isNotIn : op.kind = .nullAwareAnti)
    (stagedNull : state.rightStaged.nullWeight = op.nullSum state.rightStaged.rows)
    (notEmpty : 0 < op.nullSum (right ++ state.rightStaged.rows) →
      totalSum (right ++ state.rightStaged.rows) ≠ 0) : Yields (op.nullAwareAntiOutputs state
        (op.outputSchema leftFields rightFields))
      (op.KindSpec (op.outputSchema leftFields rightFields) state left right) := by
  have filters : Filters op.kind := .inr (.inr isNotIn)
  have counts := tracks.rightKeys (by simp [isNotIn])
  refine (deltaByKey_yields state.rightStaged.rows).bind fun deltaRw deltaCounts => ?_
  refine (sumValues_yields deltaCounts).bindEq ((yields_addI64 _ _).bindEq
    ((yields_addI64 _ _).bindEq ?_))
  rw [integrate_byKey, tracks.total isNotIn, tracks.null isNotIn, stagedNull, ← totalSum_append,
    ← nullSum_append]
  refine (nullAwareArranged_yields sides ready deltaRw _ _ _ _).bind fun arranged arrangedSpec => ?_
  refine (nullAwareArrived_yields sides ready deltaRw (by simpa using notEmpty)).bind
    fun arrived arrivedSpec => ?_
  refine (filtered_batch sides filters fun row mem => ?_).bind fun outputs emits => ?_
  · rcases mem_append.mp mem with inArranged | inArrived
    · exact arrangedSpec.1 row inArranged
    · exact arrivedSpec.1 row inArrived
  refine Meets.pure ⟨⟨_, emits, fun test => ?_⟩, fun _ => deltaCounts, by simp [isNotIn]⟩
  rw [integrate_append, arrangedSpec.2, arrivedSpec.2]
  simp only [entrySum, isNotIn]
  exact visibleSum_step test counts deltaCounts _

end Outputs

end OuterJoinOp

end RockStream
