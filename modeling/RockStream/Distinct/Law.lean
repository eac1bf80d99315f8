import RockStream.Distinct.Dual

/-!
Contract: the zero-crossing law of DISTINCT over runs.

DISTINCT does what a set operation does that weighs the left side only, with nothing on
the right.

Owns:
- `asDual`, the state as the left one of two arrangements, and the run it takes part in;
- `processDelta_zeroCrossing`, and the run on a NULL row that breaks the law.

Does not own: the law of set operations.
-/

namespace RockStream

open Lib Lib.Weighted List Loop ArrowZSet Step

/-- A call seen through a map of its states. -/
def Step.view {σ τ ω : Type} (map : σ → τ) : Step σ (ω × σ) → Step τ (ω × τ)
  | .ok (output, next) => .ok (output, map next)
  | .error (fault, state) => .error (fault, map state)

section View

variable {σ τ ι κ ω : Type} {map : σ → τ}

theorem Step.view_bind {ω' : Type} {call : Step σ (ω × σ)} {next : ω × σ → Step σ (ω' × σ)}
    {next' : ω × τ → Step τ (ω' × τ)}
    (same : ∀ result, next' (result.1, map result.2) = (next result).view map) :
    call.view map >>= next' = (call >>= next).view map := by
  cases call with
  | error failure => rfl
  | ok result => exact same result

theorem Step.view_foldlM {body : ω × σ → ι → Step σ (ω × σ)} {body' : ω × τ → ι → Step τ (ω × τ)}
    (same : ∀ current item, body' (current.1, map current.2) item = (body current item).view map)
    (items : List ι) (current : ω × σ) :
    items.foldlM body' (current.1, map current.2) = (items.foldlM body current).view map := by
  induction items generalizing current with
  | nil => rfl
  | cons item items ih =>
    rw [foldlM_cons, foldlM_cons, same]
    exact view_bind ih

theorem Step.view_run {step : σ → ι → Step σ (ω × σ)} {step' : τ → κ → Step τ (ω × τ)} {see : ι → κ}
    (same : ∀ state input, step' (map state) (see input) = (step state input).view map)
    (inputs : List ι) (state : σ) :
    run step' (map state) (inputs.map see) = view map (run step state inputs) := by
  induction inputs generalizing state with
  | nil => rfl
  | cons input inputs ih =>
    rw [map_cons, run, run, same]
    refine view_bind fun result => ?_
    rw [ih]
    exact view_bind fun _ => rfl

end View

namespace DistinctOp

def weigh (left _right : Int) (_all : Bool) : Int := clampWeight left

theorem small_clampWeight (weight : Int) : Small (clampWeight weight) := by
  unfold clampWeight
  split <;> decide

theorem outputWeight_weigh : DualArrangement.OutputWeight weigh :=
  ⟨fun left _ _ _ _ => small_clampWeight left, fun _ => rfl⟩

theorem append_crossing (out : List (List Int64 × Int)) (vals : List Int64)
    (oldWeight newWeight : Int) : out ++ crossing vals oldWeight newWeight =
      if clampWeight newWeight - clampWeight oldWeight ≠ 0 then
        out ++ [(vals, clampWeight newWeight - clampWeight oldWeight)] else out := by
  unfold crossing clampWeight
  rcases lt_or_ge 0 oldWeight with oldPositive | oldNot
  · rcases lt_or_ge 0 newWeight with newPositive | newNot
    · simp [oldPositive, newPositive, oldPositive.not_ge, newPositive.not_ge]
    · simp [oldPositive, newNot, oldPositive.not_ge, newNot.not_gt]
  · rcases lt_or_ge 0 newWeight with newPositive | newNot
    · simp [oldNot, newPositive, oldNot.not_gt]
    · simp [oldNot.not_gt, newNot.not_gt]

/-! ## DISTINCT as a set operation -/

def asDual (state : DistinctState) : DualArrangement := ⟨state.entries, ∅⟩

/-- A batch on the left, and nothing on the right. -/
def besides (batch : ArrowZSet) : ArrowZSet × ArrowZSet :=
  (batch, { batch with rows := [], conforms := nofun })

theorem entries_store (state : DistinctState) (key : Bytes) (vals : List Int64) (newWeight : Int) :
    (state.store key vals newWeight).entries =
      if newWeight ≠ 0 then state.entries.insert key (newWeight, vals)
        else state.entries.erase key := by
  unfold DistinctState.store
  dsimp only
  split
  · rfl
  · split
    · next isNew =>
      have absent : key ∉ state.entries := by
        rw [← AList.lookup_eq_none]
        exact Option.isNone_iff_eq_none.mp isNew
      exact AList.ext (kerase_of_notMem_keys absent).symm
    · rfl

theorem apply_asDual (state : DistinctState) (key : Bytes) (vals : List Int64) (delta : Int) :
    (asDual state).apply .left key vals delta = (do
      let newWeight ← addI64 (state.entries.weightAt key) delta
      pure (asDual (state.store key vals newWeight))) := by
  unfold asDual
  simp only [entries_store]
  rfl

theorem outWeight_store (state : DistinctState) (key : Bytes) (vals : List Int64)
    (newWeight : Int) :
    (asDual (state.store key vals newWeight)).outWeight weigh false key =
      clampWeight newWeight := by
  unfold DualArrangement.outWeight weigh asDual
  rw [entries_store, RowWeights.weightAt_update, if_pos rfl]

theorem processRow_asDual (current : List (List Int64 × Int) × DistinctState)
    (row : List Cell × Int) :
    DualArrangement.processRow weigh false .left (current.1, asDual current.2) row =
      (processRow current row).view asDual := by
  have inside : ∀ old new, InI64 (clampWeight new - clampWeight old) := by
    intro old new
    unfold clampWeight
    split <;> split <;> decide
  unfold DualArrangement.processRow processRow
  split
  · rfl
  dsimp only
  rw [apply_asDual]
  cases addI64 (current.2.entries.weightAt (rowKey (extractRowVals row.1))) row.2 with
  | error fault => rfl
  | ok newWeight =>
    show (Exec.within _ (subI64 ((asDual _).outWeight weigh false _)
      (clampWeight (current.2.entries.weightAt _))) >>= _) = _
    rw [outWeight_store, subI64_of_inI64 (inside _ _)]
    simp only [append_crossing]
    rfl

theorem processDelta_asDual (op : DistinctOp) (state : DistinctState) (batch : ArrowZSet) :
    DualArrangement.processEpoch weigh op.schema false (asDual state) (besides batch) =
      (op.processDelta state batch).view asDual := by
  have looped : op.processDelta state batch = (do
      let result ← batch.rows.foldlM processRow ([], state)
      let output ← Exec.within result.2 (buildOutput op.schema result.1)
      pure (output, result.2)) := by
    unfold processDelta
    split
    · next noRows =>
      rw [isEmpty_iff.mp noRows]
      rfl
    · rfl
  unfold DualArrangement.processEpoch
  rw [looped]
  have rows := view_foldlM processRow_asDual batch.rows ([], state)
  dsimp only [besides] at rows ⊢
  rw [rows]
  refine view_bind fun result => ?_
  show (Exec.within (asDual result.2) (buildOutput op.schema result.1) >>= _) = _
  cases buildOutput op.schema result.1 <;> rfl

section RunLaw

variable {op : DistinctOp} {width : Nat} {batches : List ArrowZSet}

theorem run_asDual :
    run (DualArrangement.processEpoch weigh op.schema false) .new (batches.map besides) =
    view asDual (run op.processDelta .new batches) :=
  view_run op.processDelta_asDual batches .new

theorem accumulated_besides : DualArrangement.accumulated (batches.map besides) =
    fun side => if side = .left then batches.flatMap valued else [] := by
  funext side
  cases side with
  | left => simp [DualArrangement.accumulated, besides, flatMap_map]
  | right => simp [DualArrangement.accumulated, besides, flatMap_map, valued, denote]

variable (shape : Int64Shape op.schema width) (columns : 0 < width)
  (inputs : ∀ batch ∈ batches, Int64Shape batch.fields width)
  (nullFree : ∀ batch ∈ batches, NullFree batch.rows)
include inputs nullFree

theorem besides_nullFree :
    ∀ epoch ∈ batches.map besides, DualArrangement.NullFreeEpoch width epoch := by
  intro epoch mem
  obtain ⟨batch, isBatch, rfl⟩ := mem_map.mp mem
  exact ⟨inputs batch isBatch, inputs batch isBatch, nullFree batch isBatch, nofun⟩

include shape columns

theorem run_succeeds_iff : Running InI64 (batches.flatMap valued) ↔
    ∃ outputs final, run op.processDelta .new batches = .ok (outputs, final) := by
  have law := (DualArrangement.run_law outputWeight_weigh shape columns false
    (besides_nullFree inputs nullFree)).1
  have fits : DualArrangement.Fits (DualArrangement.accumulated (batches.map besides)) ↔
      Running InI64 (batches.flatMap valued) := by
    rw [accumulated_besides]
    refine ⟨fun fits => fits .left, fun running side => ?_⟩
    cases side with
    | left => exact running
    | right => exact Running.nil
  have ends : (∃ outputs final, view asDual (run op.processDelta .new batches) =
      .ok (outputs, final)) ↔ ∃ outputs final, run op.processDelta .new batches =
        .ok (outputs, final) := by
    rcases run op.processDelta .new batches with failure | ⟨outputs, final⟩ <;> simp [view]
  rw [← fits, law, ← ends, ← run_asDual]

theorem weight_of_run {outputs : List ArrowZSet} {final : DistinctState}
    (ran : run op.processDelta .new batches = .ok (outputs, final)) (row : Row) :
    weight (outputs.flatMap valued) row =
      if 0 < weight (batches.flatMap valued) row then 1 else 0 := by
  have shown := (DualArrangement.run_law outputWeight_weigh shape columns false
    (besides_nullFree inputs nullFree)).2 outputs (asDual final)
  rw [accumulated_besides] at shown
  refine shown ?_ row
  refine run_asDual.trans ?_
  rw [ran]
  rfl

end RunLaw

/-- DISTINCT zero-crossing law: in every run over Int64 rows in which no row of non-zero weight
holds a NULL, the run succeeds exactly while the running weights fit an `i64`, and then every row
has weight one in the emitted rows where its accumulated weight is positive and weight zero
elsewhere. -/
theorem processDelta_zeroCrossing (op : DistinctOp) (width : Nat)
    (shape : Int64Shape op.schema width) (columns : 0 < width) (batches : List ArrowZSet)
    (inputs : ∀ batch ∈ batches, Int64Shape batch.fields width)
    (nullFree : ∀ batch ∈ batches, NullFree batch.rows) :
    (Running InI64 (batches.flatMap ArrowZSet.valued) ↔
      ∃ outputs final, Loop.run op.processDelta .new batches = .ok (outputs, final)) ∧
    ∀ outputs final, Loop.run op.processDelta .new batches = .ok (outputs, final) →
      ∀ row, weight (outputs.flatMap ArrowZSet.valued) row =
        if 0 < weight (batches.flatMap ArrowZSet.valued) row then 1 else 0 :=
  ⟨run_succeeds_iff shape columns inputs nullFree, fun _ _ ran row =>
    weight_of_run shape columns inputs nullFree ran row⟩

/-! ## Runs -/

/-- Two nullable Int64 columns. -/
def sampleOp : DistinctOp := ⟨(ArrowZSet.ofPairs []).fields⟩

/-- A duplicate, a retraction to zero, a debt that is repaid, and a NULL of weight zero. -/
def sampleBatches : List ArrowZSet :=
  [.ofPairs [((some 1, some 5), 2), ((some 1, some 3), -1), ((none, some 7), 0)],
    .ofPairs [((some 1, some 5), -2), ((some 1, some 3), 2), ((some 2, some 7), 1)]]

theorem processDelta_zeroCrossing_sample : ∃ outputs final,
    Loop.run sampleOp.processDelta .new sampleBatches = .ok (outputs, final) ∧
      ∀ row, weight (outputs.flatMap ArrowZSet.valued) row =
        if 0 < weight (sampleBatches.flatMap ArrowZSet.valued) row then 1 else 0 := by
  have law := processDelta_zeroCrossing sampleOp 2 ⟨rfl, by decide⟩ (by decide) sampleBatches
    (fun batch member => by
      rcases mem_pair.mp member with rfl | rfl <;> exact ⟨rfl, by decide⟩)
    (by decide +kernel)
  obtain ⟨outputs, final, ran⟩ := law.1.mp (by decide +kernel)
  exact ⟨outputs, final, ran, law.2 outputs final ran⟩

/-- A row with a NULL goes in; the row with a zero in its place comes out. -/
theorem null_row_emitted_as_zero : ∃ outputs final,
    Loop.run sampleOp.processDelta .new [.ofPairs [((some 1, none), 1)]] = .ok (outputs, final) ∧
      weight (ArrowZSet.ofPairs [((some 1, none), 1)]).valued [some (.int64 1), none] = 1 ∧
      weight (outputs.flatMap ArrowZSet.valued) [some (.int64 1), none] = 0 ∧
      weight (outputs.flatMap ArrowZSet.valued) [some (.int64 1), some (.int64 0)] = 1 :=
  ⟨_, _, rfl, by decide +kernel, by decide +kernel, by decide +kernel⟩

end DistinctOp

end RockStream
