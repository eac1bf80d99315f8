import RockStream.Lib.Loop

/-!
Contract: postconditions of computations that may fail in permitted ways.

`Meets Allowed call Post` says that `call` either returns a value satisfying `Post` or
fails in a way that `Allowed` permits. The failure case is discharged once, where the
computation is run, and not at every step of a proof.

Owns:
- `Meets` and its rules for return, sequencing, mapping, loops and runs;
- the invariant rules: a property of the consumed prefix that one successful step carries
  forward holds after every successful loop or run;
- `Meets.elim`, which turns it into success when the permitted failures are excluded.

Does not own: which failures a caller permits.
-/

namespace RockStream.Lib

universe u

variable {ε α β σ ι ω : Type u}
variable {value : α} {Next : β → Prop} {items : List α}

/-- The computation returns a value satisfying the postcondition, or fails as permitted. -/
def Meets (Allowed : ε → Prop) (call : Except ε α) (Post : α → Prop) : Prop :=
  match call with
  | .ok value => Post value
  | .error failure => Allowed failure

namespace Meets

variable {Allowed : ε → Prop} {call : Except ε α} {Post : α → Prop}

theorem ok (holds : Post value) : Meets Allowed (.ok value) Post := holds

theorem pure (holds : Post value) : Meets Allowed (Pure.pure value : Except ε α) Post := holds

/-- Where any failure is permitted, only a returned value matters. -/
theorem intro (returns : ∀ value, call = .ok value → Post value) :
    Meets (fun _ => True) call Post := by
  cases call with
  | error failure => trivial
  | ok value => exact returns value rfl

theorem post (met : Meets Allowed call Post) (returned : call = .ok value) : Post value := by
  rw [returned] at met
  exact met

theorem elim (met : Meets Allowed call Post)
    (excluded : ∀ failure, call = .error failure → ¬ Allowed failure) :
    ∃ value, call = .ok value ∧ Post value := by
  cases call with
  | error failure => exact absurd met (excluded failure rfl)
  | ok value => exact ⟨value, rfl, met⟩

theorem weaken {Weaker : α → Prop} (met : Meets Allowed call Post)
    (implies : ∀ value, Post value → Weaker value) : Meets Allowed call Weaker := by
  cases call with
  | error failure => exact met
  | ok value => exact implies value met

theorem permit {Wider : ε → Prop} (met : Meets Allowed call Post)
    (implies : ∀ failure, Allowed failure → Wider failure) : Meets Wider call Post := by
  cases call with
  | error failure => exact implies failure met
  | ok value => exact met

theorem bind {continue_ : α → Except ε β} (met : Meets Allowed call Post)
    (next : ∀ value, Post value → Meets Allowed (continue_ value) Next) :
    Meets Allowed (call >>= continue_) Next := by
  cases call with
  | error failure => exact met
  | ok value => exact next value met

theorem bindEq {continue_ : α → Except ε β} (met : Meets Allowed call (· = value))
    (next : Meets Allowed (continue_ value) Next) : Meets Allowed (call >>= continue_) Next := by
  refine met.bind ?_
  rintro _ rfl
  exact next

theorem mapM {call : α → Except ε β} {value : α → β}
    (each : ∀ item ∈ items, Meets Allowed (call item) (· = value item)) :
    Meets Allowed (items.mapM call) (· = items.map value) := by
  induction items with
  | nil => exact ok rfl
  | cons item items ih =>
    rw [List.mapM_cons]
    refine (each item (by simp)).bindEq ?_
    exact (ih fun other mem => each other (by simp [mem])).bindEq (pure rfl)

theorem mapM_flatten {call : α → Except ε (List β)} {value : α → List β}
    (each : ∀ item ∈ items, Meets Allowed (call item) (· = value item)) :
    Meets Allowed (do
      let parts ← items.mapM call
      Pure.pure parts.flatten) (· = items.flatMap value) :=
  (mapM each).bindEq (pure rfl)

theorem foldlM {body : σ → ι → Except ε σ} {items : List ι} {state : σ}
    (Holds : List ι → σ → Prop) (start : Holds [] state)
    (preserve : ∀ done item rest current, items = done ++ item :: rest → Holds done current →
      Meets Allowed (body current item) (Holds (done ++ [item]))) :
    Meets Allowed (items.foldlM body state) (Holds items) := by
  suffices general : ∀ done rest current, items = done ++ rest → Holds done current →
      Meets Allowed (rest.foldlM body current) (Holds items) from general [] items state rfl start
  intro done rest
  induction rest generalizing done with
  | nil =>
    intro current split held
    rw [List.append_nil] at split
    rw [split]
    exact ok held
  | cons item rest ih =>
    intro current split held
    refine (preserve done item rest current split held).bind ?_
    intro next heldNext
    exact ih (done ++ [item]) next (by simp [split]) heldNext

theorem run {step : σ → ι → Except ε (ω × σ)} {inputs : List ι} {state : σ}
    (Holds : List ι → List ω → σ → Prop) (start : Holds [] [] state)
    (preserve : ∀ done input rest emitted current, inputs = done ++ input :: rest →
      Holds done emitted current → Meets Allowed (step current input)
        fun result => Holds (done ++ [input]) (emitted ++ [result.1]) result.2) :
    Meets Allowed (Loop.run step state inputs) fun result => Holds inputs result.1 result.2 := by
  suffices general : ∀ done rest emitted current, inputs = done ++ rest →
      Holds done emitted current →
      Meets Allowed (Loop.run step current rest)
        fun result => Holds inputs (emitted ++ result.1) result.2 from
    general [] inputs [] state rfl start
  intro done rest
  induction rest generalizing done with
  | nil =>
    intro emitted current split held
    rw [split]
    exact ok (by simpa using held)
  | cons input rest ih =>
    intro emitted current split held
    refine (preserve done input rest emitted current split held).bind ?_
    intro stepped heldNext
    refine (ih (done ++ [input]) (emitted ++ [stepped.1]) stepped.2
      (by simp [split]) heldNext).bind ?_
    intro final heldFinal
    exact pure (by simpa using heldFinal)

end Meets

namespace Loop

variable {state final : σ} {outputs : List ω}

/-- An invariant whose steps may use that they see a listed item, in a list without duplicates one
that is new. -/
theorem foldlM_invariant_of_mem {body : σ → ι → Except ε σ} {items : List ι}
    (Holds : List ι → σ → Prop)
    (preserve : ∀ done state item next, item ∈ items → (items.Nodup → item ∉ done) →
      Holds done state → body state item = .ok next → Holds (done ++ [item]) next)
    (start : Holds [] state) (ended : items.foldlM body state = .ok final) : Holds items final := by
  have met : Meets (fun _ => True) (items.foldlM body state) (Holds items) := by
    refine Meets.foldlM Holds start fun done item rest current split held => Meets.intro ?_
    intro next stepped
    refine preserve done current item next (by simp [split]) (fun nodup seen => ?_) held stepped
    rw [split] at nodup
    exact (List.nodup_append.mp nodup).2.2 item seen item List.mem_cons_self rfl
  exact met.post ended

theorem foldlM_invariant {body : σ → ι → Except ε σ} (Holds : List ι → σ → Prop)
    (preserve : ∀ done state item next,
      Holds done state → body state item = .ok next → Holds (done ++ [item]) next) {items : List ι}
    (start : Holds [] state) (ended : items.foldlM body state = .ok final) : Holds items final :=
  foldlM_invariant_of_mem Holds
    (fun done state item next _ _ => preserve done state item next) start
    ended

theorem run_invariant {step : σ → ι → Except ε (ω × σ)} (Holds : List ι → List ω → σ → Prop)
    (preserve : ∀ done emitted state input output next,
      Holds done emitted state → step state input = .ok (output, next) →
      Holds (done ++ [input]) (emitted ++ [output]) next) {inputs : List ι}
    (start : Holds [] [] state) (ended : run step state inputs = .ok (outputs, final)) :
    Holds inputs outputs final := by
  have met : Meets (fun _ => True) (run step state inputs) fun result =>
      Holds inputs result.1 result.2 :=
    Meets.run Holds start fun _ _ _ _ _ _ held => Meets.intro fun _ stepped =>
      preserve _ _ _ _ _ _ held stepped
  exact met.post ended

end Loop

end RockStream.Lib
