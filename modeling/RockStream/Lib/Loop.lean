import Mathlib

/-!
Contract: fallible loops and runs of a fallible step function.

A loop is a left fold in `Except`; a run feeds a list of inputs to a step
function and collects the outputs. Both stop at the first failure.

Owns:
- `run`, and when a sequence, a mapping or a run returns a value;
- the classification of the failures of a loop by those of its steps.

Does not own: what a failure means to the caller, and the invariant rules.
-/

namespace RockStream.Lib.Loop

open List

universe u v w

variable {ε α β σ ι ω : Type u}
variable {result : β} {items : List α} {results : List β} {state final : σ} {outputs : List ω}

/-- Feed the inputs to a step function, in order, and collect the outputs. -/
def run (step : σ → ι → Except ε (ω × σ)) : σ → List ι → Except ε (List ω × σ)
  | state, [] => .ok ([], state)
  | state, input :: inputs => do
    let stepped ← step state input
    let rest ← run step stepped.2 inputs
    pure (stepped.1 :: rest.1, rest.2)

theorem bind_of_ok {first : Except ε α} {value : α} (called : first = .ok value)
    (second : α → Except ε β) : first >>= second = second value := by
  rw [called]
  rfl

/-- A sequenced computation succeeds exactly when both parts do. -/
theorem bind_eq_ok {first : Except ε α} {second : α → Except ε β} :
    first >>= second = .ok result ↔ ∃ value, first = .ok value ∧ second value = .ok result := by
  cases first with
  | error failure =>
    constructor
    · intro impossible
      cases impossible
    · rintro ⟨_, impossible, _⟩
      cases impossible
  | ok value =>
    constructor
    · intro ended
      exact ⟨value, rfl, ended⟩
    · rintro ⟨_, same, ended⟩
      cases same
      exact ended

/-- A sequenced computation fails exactly when its first or its second part does. -/
theorem bind_eq_error {first : Except ε α} {second : α → Except ε β} {failure : ε} :
    first >>= second = .error failure ↔
      first = .error failure ∨ ∃ value, first = .ok value ∧ second value = .error failure := by
  cases first with
  | error other =>
    constructor
    · intro failed
      cases failed
      exact .inl rfl
    · rintro (same | ⟨_, impossible, _⟩)
      · cases same
        rfl
      · cases impossible
  | ok value =>
    constructor
    · intro failed
      exact .inr ⟨value, rfl, failed⟩
    · rintro (impossible | ⟨_, same, failed⟩)
      · cases impossible
      · cases same
        exact failed

theorem mapError_eq_ok {ε' : Type w} {rename : ε → ε'} {call : Except ε α} {value : α} :
    call.mapError rename = .ok value ↔ call = .ok value := by
  cases call with
  | error failure =>
    constructor <;> intro impossible <;> cases impossible
  | ok returned =>
    constructor <;> intro same <;> cases same <;> rfl

/-- A computation whose result passes a decidable test succeeds. -/
theorem exists_ok_of_any (call : Except ε α) (test : α → Bool)
    (passes : call.toOption.any test = true) : ∃ value, call = .ok value ∧ test value = true := by
  cases call with
  | error failure => cases passes
  | ok value => exact ⟨value, rfl, passes⟩

section Results

variable {call : Except ε (α × β)} {Test Rest : α → β → Prop}

theorem exists_ok_of_isSome (ends : call.toOption.isSome = true)
    (rest : ∀ first second, call = .ok (first, second) → Rest first second) :
    ∃ first second, call = .ok (first, second) ∧ Rest first second := by
  cases call with
  | error failure => cases ends
  | ok result => exact ⟨result.1, result.2, rfl, rest _ _ rfl⟩

variable [∀ first second, Decidable (Test first second)]
  (passes : call.toOption.any (fun result => decide (Test result.1 result.2)) = true)
include passes

/-- The result of a computation, and what evaluation and a law say of it. -/
theorem exists_ok_and (rest : ∀ first second, call = .ok (first, second) → Rest first second) :
    ∃ first second, call = .ok (first, second) ∧ Test first second ∧ Rest first second := by
  obtain ⟨result, isResult, tested⟩ := exists_ok_of_any call _ passes
  exact ⟨result.1, result.2, isResult, of_decide_eq_true tested, rest _ _ isResult⟩

theorem exists_ok : ∃ first second, call = .ok (first, second) ∧ Test first second := by
  obtain ⟨first, second, isResult, tested, _⟩ := exists_ok_and passes fun _ _ _ => trivial
  exact ⟨first, second, isResult, tested⟩

end Results

theorem mapM_eq_ok {call : α → Except ε β} : items.mapM call = .ok results ↔
      List.Forall₂ (fun item result => call item = .ok result) items results := by
  induction items generalizing results with
  | nil =>
    constructor
    · intro ended
      cases ended
      exact .nil
    · intro rel
      cases rel
      rfl
  | cons item items ih =>
    rw [mapM_cons, bind_eq_ok]
    constructor
    · rintro ⟨result, called, ended⟩
      obtain ⟨rest, mapped, done⟩ := bind_eq_ok.mp ended
      cases done
      exact .cons called (ih.mp mapped)
    · intro rel
      cases rel with
      | cons called rest =>
        refine ⟨_, called, ?_⟩
        rw [bind_eq_ok]
        exact ⟨_, ih.mpr rest, rfl⟩

theorem getElem_of_mapM_eq_ok {call : α → Except ε β} (mapped : items.mapM call = .ok results)
    {index : Nat} {item : α} (isItem : items[index]? = some item)
    (isResult : results[index]? = some result) : call item = .ok result := by
  obtain ⟨inItems, rfl⟩ := List.getElem?_eq_some_iff.mp isItem
  obtain ⟨inResults, rfl⟩ := List.getElem?_eq_some_iff.mp isResult
  exact (mapM_eq_ok.mp mapped).get inItems inResults

theorem mapM_of_ok {call : α → Except ε β} {value : α → β}
    (each : ∀ item ∈ items, call item = .ok (value item)) :
    items.mapM call = .ok (items.map value) := by
  induction items with
  | nil => rfl
  | cons item items ih =>
    rw [mapM_cons, each item (by simp),
      ih fun other mem => each other (by simp [mem])]
    rfl

/-- A view of the results is the loop over the views. -/
theorem map_mapM {γ : Type u} (call : α → Except ε β) (view : β → γ) (items : List α) :
    (items.mapM call).map (map view) = items.mapM fun item => (call item).map view := by
  induction items with
  | nil => rfl
  | cons item items ih =>
    rw [mapM_cons, mapM_cons, ← ih]
    cases call item with
    | error failure => rfl
    | ok value => cases items.mapM call <;> rfl

theorem anyM_of_ok {ε : Type} {α : Type v} {items : List α} {call : α → Except ε Bool}
    {test : α → Bool} (each : ∀ item ∈ items, call item = .ok (test item)) :
    items.anyM call = .ok (items.any test) := by
  induction items with
  | nil => rfl
  | cons item items ih =>
    rw [anyM, each item (by simp),
      ih fun other mem => each other (by simp [mem])]
    cases found : test item <;> simp [found] <;> rfl

theorem map_eq_map_of_forall₂ {γ : Type u} {Rel : α → β → Prop} {view : β → γ} {value : α → γ}
    (rel : List.Forall₂ Rel items results)
    (determined : ∀ item ∈ items, ∀ result, Rel item result → view result = value item) :
    results.map view = items.map value := by
  induction rel with
  | nil => rfl
  | cons related _ ih =>
    rw [map_cons, map_cons, determined _ (by simp) _ related,
      ih fun item mem => determined item (by simp [mem])]

theorem map_eq_map_of_mapM_eq_ok {γ : Type u} {call : α → Except ε β} {view : β → γ} {value : α → γ}
    (determined : ∀ item result, call item = .ok result → view result = value item)
    (mapped : items.mapM call = .ok results) : results.map view = items.map value :=
  map_eq_map_of_forall₂ (mapM_eq_ok.mp mapped) fun item _ => determined item

theorem eq_map_of_mapM_eq_ok {call : α → Except ε β} {value : α → β}
    (determined : ∀ item result, call item = .ok result → result = value item)
    (mapped : items.mapM call = .ok results) : results = items.map value := by
  have same : results.map id = items.map value := map_eq_map_of_mapM_eq_ok determined mapped
  rwa [map_id] at same

theorem exists_of_mem_mapM {call : α → Except ε β} (mapped : items.mapM call = .ok results)
    (mem : result ∈ results) : ∃ item ∈ items, call item = .ok result := by
  have rel := mapM_eq_ok.mp mapped
  clear mapped
  induction rel with
  | nil => cases mem
  | cons called _ ih =>
    rcases mem_cons.mp mem with rfl | later
    · exact ⟨_, by simp, called⟩
    · obtain ⟨item, isItem, returned⟩ := ih later
      exact ⟨item, by simp [isItem], returned⟩

/-! ## Loops -/

/-- A loop fails only as one of its steps does. -/
theorem foldlM_error {body : σ → ι → Except ε σ} (Failure : ε → Prop)
    (classify : ∀ state item failure, body state item = .error failure → Failure failure)
    {items : List ι} {failure : ε}
    (failed : items.foldlM body state = .error failure) : Failure failure := by
  induction items generalizing state with
  | nil => cases failed
  | cons item items ih =>
    rcases bind_eq_error.mp failed with stopped | ⟨next, _, rest⟩
    · exact classify state item failure stopped
    · exact ih rest

/-! ## Runs -/

theorem run_append_eq_ok {step : σ → ι → Except ε (ω × σ)} {first second : List ι}
    (ran : run step state (first ++ second) = .ok (outputs, final)) :
    ∃ early middle late, run step state first = .ok (early, middle) ∧
      run step middle second = .ok (late, final) ∧ outputs = early ++ late := by
  induction first generalizing state outputs with
  | nil => exact ⟨[], state, outputs, rfl, ran, rfl⟩
  | cons input inputs ih =>
    obtain ⟨stepped, called, ran⟩ := bind_eq_ok.mp ran
    obtain ⟨rest, ranRest, ended⟩ := bind_eq_ok.mp ran
    cases ended
    obtain ⟨early, middle, late, ranEarly, ranLate, joined⟩ := ih ranRest
    refine ⟨stepped.1 :: early, middle, late, ?_, ranLate, by rw [joined, cons_append]⟩
    rw [run, bind_of_ok called, bind_of_ok ranEarly]
    rfl

end RockStream.Lib.Loop
