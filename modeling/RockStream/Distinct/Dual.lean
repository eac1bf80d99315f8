import RockStream.Distinct.Op

/-!
Contract: the INTERSECT and EXCEPT law over runs.

Both operators emit, row by row, the change of an output weight that depends on the two
accumulated weights of the row. The law is proved once for any output weight whose values
are small, and read off for the two operators.

The operators key rows by their raw values and never look at a validity bit, so a NULL
and a zero are one value to them. Where no row of non-zero weight holds a NULL, raw values
are row values and the law holds.

Owns:
- `ViewChange`, rows that are the change of a view with small values, and its extension by
  one emitted row;
- `Represents`, the two arrangements of an accumulated input;
- `processEpoch_spec` and `runInvariant_run`, one epoch and a whole run for any output
  weight;
- `processEpoch_setOperations`, the declared set and bag results.

Does not own: the output builder.
-/

namespace RockStream

open Lib Lib.Weighted List Running ArrowZSet

variable {input : List (Row × Int)} {delta left right : Int} {out : List (List Int64 × Int)}
  {width : Nat} {batch : ArrowZSet} {inputs : Inputs}
  {current : List (List Int64 × Int) × DualArrangement} {epoch : ArrowZSet × ArrowZSet}

/-! ## Arrangements of weights -/

namespace RowWeights

variable {cells : List Cell}

theorem weightAt_update (rows : RowWeights) (key query : Bytes) (weight : Int) (vals : List Int64) :
    weightAt (if weight ≠ 0 then rows.insert key (weight, vals) else rows.erase key) query =
      if query = key then weight else rows.weightAt query := by
  unfold weightAt
  split
  · rw [HashMap.lookup_insert_eq]
    split <;> rfl
  · next zero =>
    rw [HashMap.lookup_erase_eq, not_ne_iff.mp zero]
    split <;> rfl

end RowWeights

/-- The arrangement holds the weights of the rows without NULL. -/
def StoresWeights (stored : RowWeights) (input : List (Row × Int)) : Prop :=
  ∀ vals, stored.weightAt (rowKey vals) = weight input (valuesRow vals)

theorem StoresWeights.empty : StoresWeights ∅ [] := fun _ => rfl

theorem weight_denote_single (typed : Int64Typed cells) (valid : Valid cells) (delta : Int)
    (vals : List Int64) : weight (denote [(cells, delta)]) (valuesRow vals) =
      if extractRowVals cells = vals then delta else 0 := by
  simp [denote, get_of_valid typed valid]

/-- An arrangement that only changes at the values of a row holds the extended input. -/
theorem StoresWeights.append_row {stored next : RowWeights}
    (stores : StoresWeights stored input) (typed : Int64Typed cells) (valid : Valid cells)
    (changed : ∀ query, next.weightAt query = if query = rowKey (extractRowVals cells)
      then stored.weightAt (rowKey (extractRowVals cells)) + delta else stored.weightAt query) :
    StoresWeights next (input ++ denote [(cells, delta)]) := by
  intro vals
  rw [changed, weight_append, weight_denote_single typed valid]
  by_cases same : extractRowVals cells = vals
  · rw [if_pos (by rw [same]), if_pos same, stores, same]
  · rw [if_neg fun keys => same (rowKey_injective keys).symm, if_neg same, stores, add_zero]

/-! ## Emitting the change of a view -/

/-- The rows are the change from one view of a state to another, and building them in order never
leaves the range of an `i64`. -/
structure ViewChange (before after : List Int64 → Int) (out : List (List Int64 × Int)) : Prop where
  law : ∀ vals, weight out vals = after vals - before vals
  running : Running InI64 out

def Small (weight : Int) : Prop := 0 ≤ weight ∧ weight < 2 ^ 63

instance (weight : Int) : Decidable (Small weight) := inferInstanceAs (Decidable (_ ∧ _))

theorem ViewChange.refl (view : List Int64 → Int) : ViewChange view view [] :=
  ⟨fun vals => by simp, nil⟩

/-- Emit the change at one row. -/
theorem ViewChange.push {before after next : List Int64 → Int}
    (change : ViewChange before after out) (vals : List Int64)
    (others : ∀ other, other ≠ vals → next other = after other) (small : Small (before vals))
    (smallNext : Small (next vals)) : ViewChange before next
      (if next vals - after vals ≠ 0 then out ++ [(vals, next vals - after vals)] else out) := by
  have grown : ∀ other, weight (out ++ [(vals, next vals - after vals)]) other =
      next other - before other := by
    intro other
    rw [weight_append, change.law]
    by_cases same : vals = other
    · subst same
      simp
    · rw [others other (Ne.symm same)]
      simp [same]
  split
  · have inside : InI64 (next vals - before vals) := by
      obtain ⟨_, _⟩ := small
      obtain ⟨_, _⟩ := smallNext
      constructor <;> omega
    exact ⟨grown, change.running.append_single (by rw [grown]; exact inside)⟩
  · next unchanged =>
    refine ⟨fun other => ?_, change.running⟩
    rw [← grown other, not_ne_iff.mp unchanged]
    simp

theorem DistinctOp.buildOutput_spec {schema : List Field} (shape : Int64Shape schema width)
    (columns : 0 < width) {before after : List Int64 → Int}
    (change : ViewChange before after out) (wide : HaveWidth width out) :
    ∃ output, buildOutput schema out = .ok output ∧ Shows output.valued before after := by
  have built := buildValues_spec shape columns
    (KeysDistinguish.of_injective (fun _ _ => rowKey_injective) out) wide
  obtain ⟨output, isOutput, showsValues⟩ := built.elim fun _ _ failed => failed.2 change.running
  exact ⟨output, isOutput, showsValues.shows change.law⟩

theorem inI64_zero : InI64 0 := by decide

namespace DistinctOp

/-- A row of non-zero weight holds no NULL. -/
def NullFree (rows : List (List Cell × Int)) : Prop := ∀ row ∈ rows, row.2 ≠ 0 → Valid row.1

instance (rows : List (List Cell × Int)) : Decidable (NullFree rows) :=
  inferInstanceAs (Decidable (∀ row ∈ rows, _))

theorem weight_eq_zero_of_not_values (input : Int64Shape batch.fields width)
    (nullFree : NullFree batch.rows) {row : Row} (notValues : ∀ vals, row ≠ valuesRow vals) :
    weight batch.valued row = 0 := by
  rw [valued, weight_denote]
  refine integrate_eq_zero fun source mem => ?_
  by_cases zero : source.2 = 0
  · rw [zero, mul_zero]
  · have typed := int64Typed_of_conforms input.typed (batch.conforms source mem)
    have isValues := get_of_valid typed (nullFree source mem zero)
    rw [if_neg fun same => notValues _ (same.symm.trans isValues), zero_mul]

end DistinctOp

namespace DualArrangement

variable {state : DualArrangement} {epochs : List (ArrowZSet × ArrowZSet)}

abbrev Inputs := Side → List (Row × Int)

def extend (inputs : Inputs) (side : Side) (rows : List (Row × Int)) : Inputs :=
  Function.update inputs side (inputs side ++ rows)

theorem extend_nil (inputs : Inputs) (side : Side) : extend inputs side [] = inputs := by
  simp [extend]

@[simp] theorem extend_same (inputs : Inputs) (side : Side) (rows : List (Row × Int)) :
    extend inputs side rows side = inputs side ++ rows := by
  simp [extend]

theorem extend_append (inputs : Inputs) (side : Side) (first second : List (Row × Int)) :
    extend (extend inputs side first) side second = extend inputs side (first ++ second) := by
  simp [extend]

theorem extend_of_ne (inputs : Inputs) {side other : Side} (ne : other ≠ side)
    (rows : List (Row × Int)) : extend inputs side rows other = inputs other :=
  Function.update_of_ne ne _ inputs

theorem on_withSide (state : DualArrangement) (side query : Side) (rows : RowWeights) :
    (state.withSide side rows).on query = if query = side then rows else state.on query := by
  cases side <;> cases query <;> rfl

/-- The two arrangements hold the accumulated weights, which fitted an `i64` after every row. -/
structure Represents (state : DualArrangement) (inputs : Inputs) : Prop where
  stores : ∀ side, StoresWeights (state.on side) (inputs side)
  running : ∀ side, Running InI64 (inputs side)

theorem represents_new : Represents new fun _ => [] where
  stores := fun side => by cases side <;> exact StoresWeights.empty
  running := fun _ => nil

theorem Represents.inI64 (represents : Represents state inputs) (side : Side)
    (vals : List Int64) : InI64 ((state.on side).weightAt (rowKey vals)) := by
  rw [represents.stores]
  exact (represents.running side).weight_ok inI64_zero _

theorem Represents.withSide {side : Side} {rows : RowWeights} {more : List (Row × Int)}
    (represents : Represents state inputs) (stores : StoresWeights rows (inputs side ++ more))
    (running : Running InI64 (inputs side ++ more)) :
    Represents (state.withSide side rows) (extend inputs side more) := by
  constructor
  · intro query
    rw [on_withSide]
    by_cases same : query = side
    · rw [if_pos same, same, extend_same]
      exact stores
    · rw [if_neg same, extend_of_ne inputs same]
      exact represents.stores query
  · intro query
    by_cases same : query = side
    · rw [same, extend_same]
      exact running
    · rw [extend_of_ne inputs same]
      exact represents.running query

/-! ## One row -/

/-- The output weights of an operator: small values, and nothing for a row on neither side. -/
structure OutputWeight (weigh : Int → Int → Bool → Int) : Prop where
  small : ∀ left right all, InI64 left → InI64 right → Small (weigh left right all)
  zero : ∀ all, weigh 0 0 all = 0

def view (weigh : Int → Int → Bool → Int) (all : Bool) (state : DualArrangement)
    (vals : List Int64) : Int :=
  state.outWeight weigh all (rowKey vals)

section Rows

variable {weigh : Int → Int → Bool → Int} {all : Bool} {start : DualArrangement}

theorem Represents.small (represents : Represents start inputs) (weight : OutputWeight weigh)
    (vals : List Int64) : Small (view weigh all start vals) :=
  weight.small _ _ all (represents.inI64 .left vals) (represents.inI64 .right vals)

/-- What holds inside the row loops of an epoch. -/
structure LoopInvariant (weigh : Int → Int → Bool → Int) (all : Bool) (width : Nat)
    (start : DualArrangement) (inputs : Inputs)
    (current : List (List Int64 × Int) × DualArrangement) : Prop where
  represents : Represents current.2 inputs
  change : ViewChange (view weigh all start) (view weigh all current.2) current.1
  smallStart : ∀ vals, Small (view weigh all start vals)
  wide : HaveWidth width current.1

/-- A row without NULL that fits is stored on its side, and no other row changes. -/
theorem Represents.apply_spec {cells : List Cell} (represents : Represents state inputs)
    (side : Side) (typed : Int64Typed cells) (valid : Valid cells) :
    Meets (fun _ => ¬ Running InI64 (inputs side ++ denote [(cells, delta)]))
      (state.apply side (rowKey (extractRowVals cells)) (extractRowVals cells) delta)
      fun next => Represents next (extend inputs side (denote [(cells, delta)])) ∧
        ∀ query vals, vals ≠ extractRowVals cells →
          (next.on query).weightAt (rowKey vals) = (state.on query).weightAt (rowKey vals) := by
  have isValues : denote [(cells, delta)] = [(valuesRow (extractRowVals cells), delta)] := by
    rw [← get_of_valid typed valid]
    rfl
  have newWeight : ((state.on side).weightAt (rowKey (extractRowVals cells))) + delta =
      weight (inputs side ++ denote [(cells, delta)]) (valuesRow (extractRowVals cells)) := by
    rw [represents.stores, isValues]
    simp
  unfold apply
  by_cases fits : InI64 (weight (inputs side ++ denote [(cells, delta)])
      (valuesRow (extractRowVals cells)))
  · rw [addI64_of_inI64 (newWeight ▸ fits)]
    refine Meets.ok ⟨represents.withSide ?_ ?_, fun query vals ne => ?_⟩
    · exact (represents.stores side).append_row typed valid fun query =>
        RowWeights.weightAt_update (state.on side) _ query _ _
    · rw [isValues] at fits ⊢
      exact (represents.running side).append_single fits
    · rw [on_withSide]
      split
      · next same =>
        rw [same, RowWeights.weightAt_update, if_neg fun keys => ne (rowKey_injective keys)]
      · rfl
  · unfold addI64 checkI64
    rw [newWeight, if_neg fits]
    intro running
    rw [isValues] at fits running
    exact fits running.last

theorem processRow_spec (weight : OutputWeight weigh) (side : Side) {row : List Cell × Int}
    (typed : Int64Typed row.1) (valid : row.2 ≠ 0 → Valid row.1) (length : row.1.length = width)
    (inv : LoopInvariant weigh all width start inputs current) :
    Meets (fun _ => ¬ Running InI64 (inputs side ++ denote [row]))
      (processRow weigh all side current row)
      (LoopInvariant weigh all width start (extend inputs side (denote [row]))) := by
  unfold processRow
  split
  · next zero =>
    -- The row is skipped; no weight changes.
    have unchanged : ∀ value, Weighted.weight (inputs side ++ denote [row]) value =
        Weighted.weight (inputs side) value := by simp [denote, zero]
    have kept : Represents (current.2.withSide side (current.2.on side))
        (extend inputs side (denote [row])) := by
      refine inv.represents.withSide (fun vals => ?_)
        ((inv.represents.running side).append_single ?_)
      · rw [unchanged]
        exact inv.represents.stores side vals
      · exact (unchanged _).symm ▸ (inv.represents.running side).weight_ok inI64_zero _
    have same : current.2.withSide side (current.2.on side) = current.2 := by cases side <;> rfl
    exact Meets.ok ⟨same ▸ kept, inv.change, inv.smallStart, inv.wide⟩
  · next nonZero =>
    refine (Exec.meets_within (inv.represents.apply_spec side typed (valid nonZero))
      current.2).bind ?_
    rintro next ⟨represents, others⟩
    have smallNow : Small (current.2.outWeight weigh all (rowKey (extractRowVals row.1))) :=
      inv.represents.small weight _
    have smallNext : Small (next.outWeight weigh all (rowKey (extractRowVals row.1))) :=
      represents.small weight _
    have inside : InI64 (next.outWeight weigh all (rowKey (extractRowVals row.1)) -
        current.2.outWeight weigh all (rowKey (extractRowVals row.1))) := by
      obtain ⟨_, _⟩ := smallNow
      obtain ⟨_, _⟩ := smallNext
      constructor <;> omega
    have unchanged : ∀ vals, vals ≠ extractRowVals row.1 →
        view weigh all next vals = view weigh all current.2 vals := by
      intro vals ne
      show weigh ((next.on .left).weightAt _) ((next.on .right).weightAt _) all =
        weigh ((current.2.on .left).weightAt _) ((current.2.on .right).weightAt _) all
      rw [others .left vals ne, others .right vals ne]
    rw [subI64_of_inI64 inside]
    refine Meets.ok ⟨represents, inv.change.push _ unchanged (inv.smallStart _)
      smallNext, inv.smallStart, ?_⟩
    split
    · intro emitted mem
      rcases mem_append.mp mem with earlier | last
      · exact inv.wide emitted earlier
      · rw [mem_singleton.mp last, extractRowVals, length_map, length]
    · exact inv.wide

theorem processRows_spec (weight : OutputWeight weigh) (side : Side)
    (shape : Int64Shape batch.fields width) (nullFree : DistinctOp.NullFree batch.rows)
    (inv : LoopInvariant weigh all width start inputs current) :
    Meets (fun _ => ¬ Running InI64 (inputs side ++ batch.valued))
      (batch.rows.foldlM (processRow weigh all side) current)
      (LoopInvariant weigh all width start (extend inputs side batch.valued)) := by
  refine Meets.foldlM (fun done => LoopInvariant weigh all width start
    (extend inputs side (denote done))) ?_ ?_
  · rw [show denote [] = [] from rfl, extend_nil]
    exact inv
  · intro done row rest current split inv
    have mem : row ∈ batch.rows := by simp [split]
    have conforms := batch.conforms row mem
    have next := processRow_spec weight side
      (int64Typed_of_conforms shape.typed conforms) (nullFree row mem)
      (conforms.length_eq.trans shape.length) inv
    rw [extend_append, ← denote_append, extend_same, append_assoc, ← denote_append] at next
    refine next.permit fun _ unfit running => unfit (of_append (denote rest) ?_)
    rw [valued, split, append_cons, denote_append, ← append_assoc] at running
    exact running

end Rows

/-! ## Epochs and runs -/

/-- Two batches of Int64 rows without NULL. -/
structure EpochShape (width : Nat) (epoch : ArrowZSet × ArrowZSet) : Prop where
  leftShape : Int64Shape epoch.1.fields width
  rightShape : Int64Shape epoch.2.fields width
  leftValid : ∀ row ∈ epoch.1.rows, Valid row.1
  rightValid : ∀ row ∈ epoch.2.rows, Valid row.1

/-- Two batches of Int64 rows in which no row of non-zero weight holds a NULL. -/
structure NullFreeEpoch (width : Nat) (epoch : ArrowZSet × ArrowZSet) : Prop where
  leftShape : Int64Shape epoch.1.fields width
  rightShape : Int64Shape epoch.2.fields width
  leftFree : DistinctOp.NullFree epoch.1.rows
  rightFree : DistinctOp.NullFree epoch.2.rows

theorem EpochShape.nullFree (shape : EpochShape width epoch) : NullFreeEpoch width epoch :=
  ⟨shape.leftShape, shape.rightShape, fun row mem _ => shape.leftValid row mem,
    fun row mem _ => shape.rightValid row mem⟩

def accumulated (epochs : List (ArrowZSet × ArrowZSet)) : Inputs
  | .left => epochs.flatMap fun epoch => epoch.1.valued
  | .right => epochs.flatMap fun epoch => epoch.2.valued

theorem accumulated_append_single (epochs : List (ArrowZSet × ArrowZSet))
    (epoch : ArrowZSet × ArrowZSet) : accumulated (epochs ++ [epoch]) =
      extend (extend (accumulated epochs) .left epoch.1.valued) .right epoch.2.valued := by
  funext side
  cases side with
  | left =>
    rw [extend_of_ne _ (by decide), extend_same]
    simp [accumulated]
  | right =>
    rw [extend_same, extend_of_ne _ (by decide)]
    simp [accumulated]

def Fits (inputs : Inputs) : Prop := ∀ side, Running InI64 (inputs side)

instance (inputs : Inputs) : Decidable (Fits inputs) :=
  decidable_of_iff (Running InI64 (inputs .left) ∧ Running InI64 (inputs .right))
    ⟨fun both side => by cases side; exacts [both.1, both.2], fun fits => ⟨fits .left, fits .right⟩⟩

section Runs

variable {weigh : Int → Int → Bool → Int} {schema : List Field}

/-- An epoch succeeds exactly while the running weights fit, and emits the change of the view. -/
theorem processEpoch_spec (weight : OutputWeight weigh) (shape : Int64Shape schema width)
    (columns : 0 < width) (all : Bool)
    (epochShape : NullFreeEpoch width epoch) (represents : Represents state inputs) :
    Meets (fun _ => ¬ Fits (extend (extend inputs .left epoch.1.valued) .right epoch.2.valued))
      (processEpoch weigh schema all state epoch) fun result =>
        Represents result.2 (extend (extend inputs .left epoch.1.valued) .right epoch.2.valued) ∧
          Shows result.1.valued (view weigh all state) (view weigh all result.2) := by
  have start : LoopInvariant weigh all width state inputs ([], state) :=
    ⟨represents, ViewChange.refl _, fun vals => represents.small weight vals,
      nofun⟩
  refine Meets.bind ((processRows_spec weight .left epochShape.leftShape epochShape.leftFree
    start).permit ?_) fun afterLeft leftInvariant => ?_
  · intro _ unfit fits
    have fitsLeft := fits .left
    exact unfit fitsLeft
  refine Meets.bind ((processRows_spec weight .right epochShape.rightShape epochShape.rightFree
    leftInvariant).permit ?_) ?_
  · intro _ unfit fits
    have fitsRight := fits .right
    exact unfit fitsRight
  rintro ⟨out, next⟩ inv
  obtain ⟨output, isOutput, shows⟩ :=
    DistinctOp.buildOutput_spec shape columns inv.change inv.wide
  dsimp only
  rw [isOutput]
  exact Meets.ok ⟨inv.represents, shows⟩

structure RunInvariant (weigh : Int → Int → Bool → Int) (all : Bool)
    (epochs : List (ArrowZSet × ArrowZSet)) (outputs : List ArrowZSet) (state : DualArrangement) :
    Prop where
  represents : Represents state (accumulated epochs)
  shows : Shows (outputs.flatMap ArrowZSet.valued) (fun _ => 0) (view weigh all state)

theorem runInvariant_run (weight : OutputWeight weigh) (shape : Int64Shape schema width)
    (columns : 0 < width) (all : Bool) (shapes : ∀ epoch ∈ epochs, NullFreeEpoch width epoch) :
    Meets (fun _ => ¬ Fits (accumulated epochs))
      (Loop.run (processEpoch weigh schema all) .new epochs)
      fun result => RunInvariant weigh all epochs result.1 result.2 := by
  refine Meets.run (RunInvariant weigh all) ⟨?_, fun vals => ?_, fun row _ => rfl⟩ ?_
  · have hollow : accumulated [] = fun _ => [] := by
      funext side
      cases side <;> rfl
    rw [hollow]
    exact represents_new
  · show 0 = weigh 0 0 all - 0
    rw [weight.zero, sub_zero]
  · intro done epoch rest emitted state split inv
    refine ((processEpoch_spec weight shape columns all (shapes epoch (by simp [split]))
      inv.represents).permit ?_).weaken ?_
    · intro _ unfit fits
      rw [← accumulated_append_single] at unfit
      refine unfit fun side => ?_
      have running := fits side
      rw [split, append_cons] at running
      cases side with
      | left => exact of_append _ (by simpa [accumulated] using running)
      | right => exact of_append _ (by simpa [accumulated] using running)
    · rintro result ⟨represents, shows⟩
      refine ⟨by rw [accumulated_append_single]; exact represents, ?_⟩
      rw [flatMap_append, flatMap_singleton]
      exact inv.shows.append shows

theorem weight_accumulated_eq_zero (shapes : ∀ epoch ∈ epochs, NullFreeEpoch width epoch)
    {row : Row}
    (notValues : ∀ vals, row ≠ valuesRow vals) (side : Side) :
    weight (accumulated epochs side) row = 0 := by
  cases side with
  | left =>
    refine weight_flatMap_eq_zero fun epoch isEpoch => ?_
    exact DistinctOp.weight_eq_zero_of_not_values (shapes epoch isEpoch).leftShape
      (shapes epoch isEpoch).leftFree notValues
  | right =>
    refine weight_flatMap_eq_zero fun epoch isEpoch => ?_
    exact DistinctOp.weight_eq_zero_of_not_values (shapes epoch isEpoch).rightShape
      (shapes epoch isEpoch).rightFree notValues

/-- The law for any output weight: a run succeeds exactly while the running weights fit, and then
every row has the output weight of its two accumulated weights. -/
theorem run_law (weight : OutputWeight weigh) (shape : Int64Shape schema width)
    (columns : 0 < width) (all : Bool) (shapes : ∀ epoch ∈ epochs, NullFreeEpoch width epoch) :
    (Fits (accumulated epochs) ↔
      ∃ outputs final, Loop.run (processEpoch weigh schema all) .new epochs =
        .ok (outputs, final)) ∧
    ∀ outputs final, Loop.run (processEpoch weigh schema all) .new epochs = .ok (outputs, final) →
      ∀ row, Weighted.weight (outputs.flatMap valued) row =
        weigh (Weighted.weight (accumulated epochs .left) row)
          (Weighted.weight (accumulated epochs .right) row) all := by
  have run := runInvariant_run weight shape columns all shapes
  refine ⟨⟨fun fits => ?_, ?_⟩, ?_⟩
  · obtain ⟨⟨outputs, final⟩, ran, _⟩ := run.elim fun _ _ unfit => unfit fits
    exact ⟨outputs, final, ran⟩
  · rintro ⟨outputs, final, ran⟩
    exact (run.post ran).represents.running
  · intro outputs final ran row
    have inv := run.post ran
    by_cases isValues : ∃ vals, row = valuesRow vals
    · obtain ⟨vals, rfl⟩ := isValues
      rw [inv.shows.1, sub_zero]
      show weigh ((final.on .left).weightAt _) ((final.on .right).weightAt _) all = _
      rw [inv.represents.stores .left, inv.represents.stores .right]
    · push Not at isValues
      rw [inv.shows.2 row isValues, weight_accumulated_eq_zero shapes isValues .left,
        weight_accumulated_eq_zero shapes isValues .right, weight.zero]

end Runs

end DualArrangement

/-! ## The declared results -/

theorem outputWeight_intersect : DualArrangement.OutputWeight intersectWeight where
  small := fun left right all leftFits rightFits => by
    obtain ⟨_, _⟩ := leftFits
    unfold intersectWeight clampWeight Small
    split
    · omega
    · split <;> split <;> omega
  zero := fun all => by cases all <;> rfl

theorem outputWeight_except : DualArrangement.OutputWeight exceptWeight where
  small := fun left right all leftFits rightFits => by
    obtain ⟨_, _⟩ := leftFits
    unfold exceptWeight clampWeight Small
    split
    · omega
    · split <;> split <;> omega
  zero := fun all => by cases all <;> rfl

def intersectResult (all : Bool) (left right : Int) : Int :=
  if all then min left right else if 0 < left ∧ 0 < right then 1 else 0

def exceptResult (all : Bool) (left right : Int) : Int :=
  if all then max (left - right) 0 else if 0 < left ∧ right = 0 then 1 else 0

theorem intersectWeight_eq_result (all : Bool) (leftNonneg : 0 ≤ left)
    (rightNonneg : 0 ≤ right) :
    intersectWeight left right all = intersectResult all left right := by
  unfold intersectWeight intersectResult clampWeight
  cases all with
  | true => simp [leftNonneg, rightNonneg]
  | false =>
    simp only [Bool.false_eq_true, if_false]
    split <;> split <;> split <;> omega

theorem exceptWeight_eq_result (all : Bool) (leftNonneg : 0 ≤ left)
    (rightNonneg : 0 ≤ right) : exceptWeight left right all = exceptResult all left right := by
  unfold exceptWeight exceptResult clampWeight
  cases all with
  | true => simp [leftNonneg, rightNonneg]
  | false =>
    simp only [Bool.false_eq_true, if_false]
    split <;> split <;> split <;> omega

open DualArrangement in
/-- INTERSECT / EXCEPT law: over Int64 rows without NULL, a run succeeds exactly while each side's
running weights fit an `i64`; where both sides' accumulated weights are non-negative, every row then
has the declared set or bag weight in the emitted rows. -/
theorem processEpoch_setOperations (schema : List Field) (width : Nat)
    (shape : Int64Shape schema width) (columns : 0 < width) (all : Bool)
    (epochs : List (ArrowZSet × ArrowZSet)) (shapes : ∀ epoch ∈ epochs, EpochShape width epoch)
    (nonNegative : ∀ side, NonNegative (accumulated epochs side)) :
    ((Fits (accumulated epochs) ↔ ∃ outputs final,
        Loop.run (IntersectOp.processEpoch ⟨schema, all⟩) .new epochs = .ok (outputs, final)) ∧
      ∀ outputs final,
        Loop.run (IntersectOp.processEpoch ⟨schema, all⟩) .new epochs = .ok (outputs, final) →
        ∀ row, weight (outputs.flatMap ArrowZSet.valued) row =
          intersectResult all (weight (accumulated epochs .left) row)
            (weight (accumulated epochs .right) row)) ∧
    ((Fits (accumulated epochs) ↔ ∃ outputs final,
        Loop.run (ExceptOp.processEpoch ⟨schema, all⟩) .new epochs = .ok (outputs, final)) ∧
      ∀ outputs final,
        Loop.run (ExceptOp.processEpoch ⟨schema, all⟩) .new epochs = .ok (outputs, final) →
        ∀ row, weight (outputs.flatMap ArrowZSet.valued) row =
          exceptResult all (weight (accumulated epochs .left) row)
            (weight (accumulated epochs .right) row)) := by
  have nullFree := fun epoch isEpoch => (shapes epoch isEpoch).nullFree
  have intersect := run_law outputWeight_intersect shape columns all nullFree
  have except := run_law outputWeight_except shape columns all nullFree
  refine ⟨⟨intersect.1, fun outputs final ran row => ?_⟩, except.1, fun outputs final ran row => ?_⟩
  · rw [intersect.2 outputs final ran]
    exact intersectWeight_eq_result all ((nonNegative .left).weight_nonneg row)
      ((nonNegative .right).weight_nonneg row)
  · rw [except.2 outputs final ran]
    exact exceptWeight_eq_result all ((nonNegative .left).weight_nonneg row)
      ((nonNegative .right).weight_nonneg row)

/-! ## A run -/

/-- Both sides change the same row inside an epoch, and a later epoch retracts a copy. -/
def sampleEpochs : List (ArrowZSet × ArrowZSet) :=
  [(.ofPairs [((some 1, some 5), 2), ((some 1, some 6), 1)], .ofPairs [((some 1, some 5), 1)]),
    (.ofPairs [((some 1, some 5), -1)], .ofPairs [((some 1, some 6), 3), ((some 1, some 6), -3)])]

open DualArrangement in
theorem processEpoch_setOperations_sample : ∃ outputs final,
    Loop.run (ExceptOp.processEpoch ⟨(ArrowZSet.ofPairs []).fields, true⟩) .new sampleEpochs =
        .ok (outputs, final) ∧ ∀ row, weight (outputs.flatMap ArrowZSet.valued) row =
        exceptResult true (weight (accumulated sampleEpochs .left) row)
          (weight (accumulated sampleEpochs .right) row) := by
  have shapes : ∀ epoch ∈ sampleEpochs, EpochShape 2 epoch := by
    intro epoch member
    rcases mem_pair.mp member with rfl | rfl <;>
      exact ⟨⟨rfl, by decide⟩, ⟨rfl, by decide⟩, by decide, by decide⟩
  have law := processEpoch_setOperations (ofPairs []).fields 2 ⟨rfl, by decide⟩
    (by decide) true sampleEpochs shapes
    (fun side => by cases side <;> decide +kernel)
  obtain ⟨outputs, final, ran⟩ := law.2.1.mp (by decide +kernel)
  exact ⟨outputs, final, ran, law.2.2 outputs final ran⟩

end RockStream
