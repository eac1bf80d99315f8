import Mathlib

/-!
Contract: histories of events in which every event has its reason in what came before it, and
runs in which every step meets a condition on the state before it.

Owns:
- `Justified` and how it grows with a history;
- `Throughout`, its rule for invariants, and how it splits a run.

Does not own: the systems that write a history, and the conditions on their steps.
-/

namespace RockStream.Lib

open List

variable {ε : Type*} {Because : List ε → ε → Prop} {history : List ε}

/-- Every event of a history has its reason in the events before it. -/
def Justified (Because : List ε → ε → Prop) (history : List ε) : Prop :=
  ∀ before event after, history = before ++ event :: after → Because before event

namespace Justified

theorem nil : Justified Because [] := by
  intro before event after same
  simp at same

theorem concat {event : ε} (justified : Justified Because history)
    (reason : Because history event) : Justified Because (history ++ [event]) := by
  intro before other after same
  rcases eq_nil_or_concat after with rfl | ⟨rest, last, rfl⟩
  · obtain ⟨rfl, sameEvent⟩ := append_inj' same rfl
    rw [← (cons.inj sameEvent).1]
    exact reason
  · rw [concat_eq_append, ← cons_append, ← append_assoc] at same
    exact justified before other rest (append_inj' same rfl).1

theorem extend {events : List ε} (justified : Justified Because history)
    (reason : ∀ event ∈ events, ∀ more, more <+: events → Because (history ++ more) event) :
    Justified Because (history ++ events) := by
  induction events using reverseRecOn with
  | nil => simpa using justified
  | append_singleton events event ih =>
    rw [← append_assoc]
    refine (ih fun other mem more isPrefix => ?_).concat ?_
    · exact reason other (mem_append_left _ mem) more
        (isPrefix.trans (prefix_append _ _))
    · exact reason event (mem_append_right _ (mem_singleton.mpr rfl)) events
        (prefix_append _ _)

/-- Events that need no reason. -/
theorem append {events : List ε} (justified : Justified Because history)
    (free : ∀ event ∈ events, ∀ before, Because before event) :
    Justified Because (history ++ events) :=
  justified.extend fun event mem more _ => free event mem (history ++ more)

end Justified

section Throughout

variable {σ ι : Type*} {step : σ → ι → σ} {Allowed : σ → ι → Prop} {state : σ}

/-- Every step of a run is allowed in the state it is taken in. -/
def Throughout (step : σ → ι → σ) (Allowed : σ → ι → Prop) : σ → List ι → Prop
  | _, [] => True
  | state, next :: rest => Allowed state next ∧ Throughout step Allowed (step state next) rest

/-- What allowed steps keep holds after a run of them. -/
theorem Throughout.invariant (Holds : σ → Prop) {steps : List ι}
    (allowed : Throughout step Allowed state steps) (start : Holds state)
    (preserve : ∀ state next, Holds state → Allowed state next → Holds (step state next)) :
    Holds (steps.foldl step state) := by
  induction steps generalizing state with
  | nil => exact start
  | cons next rest ih => exact ih allowed.2 (preserve state next start allowed.1)

theorem throughout_append {earlier later : List ι} :
    Throughout step Allowed state (earlier ++ later) ↔ Throughout step Allowed state earlier ∧
      Throughout step Allowed (earlier.foldl step state) later := by
  induction earlier generalizing state with
  | nil => simp [Throughout]
  | cons next rest ih => simp [Throughout, ih, and_assoc]

end Throughout

end RockStream.Lib
