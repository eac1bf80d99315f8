import RockStream.Lib.Loop

/-!
Contract: simulation of one fallible computation by another.

`Simulates Related call other` says that whenever `call` returns a value, `other`
returns a related one. A relation that is symmetric in the two states then gives both
directions by exchanging them.

Owns:
- `Simulates` and its rules for return, sequencing, mapping, loops and runs;
- mapping over a list in another order.

Does not own: which values count as related.
-/

namespace RockStream.Lib

universe u

variable {ε ε' α α' β β' σ σ' ι ω ω' : Type u}

/-- Every value of the first computation is matched by a related value of the second. -/
def Simulates (Related : α → α' → Prop) (call : Except ε α) (other : Except ε' α') : Prop :=
  ∀ value, call = .ok value → ∃ value', other = .ok value' ∧ Related value value'

namespace Simulates

variable {Related : α → α' → Prop} {call : Except ε α} {other : Except ε' α'}

theorem ok {value : α} {value' : α'} (rel : Related value value') :
    Simulates Related (.ok value : Except ε α) (.ok value' : Except ε' α') := by
  intro _ returned
  cases returned
  exact ⟨value', rfl, rel⟩

theorem pure {value : α} {value' : α'} (rel : Related value value') :
    Simulates Related (Pure.pure value : Except ε α) (Pure.pure value' : Except ε' α') :=
  ok rel

theorem refl {Same : α → α → Prop} (reflexive : ∀ value, Same value value) (call : Except ε α) :
    Simulates Same call call :=
  fun value returned => ⟨value, returned, reflexive value⟩

theorem same (call : Except ε α) :
    Simulates (fun value value' => value' = value ∧ call = .ok value) call call :=
  fun value returned => ⟨value, returned, rfl, returned⟩

theorem weaken {Weaker : α → α' → Prop} (simulates : Simulates Related call other)
    (implies : ∀ value value', Related value value' → Weaker value value') :
    Simulates Weaker call other := by
  intro value returned
  obtain ⟨value', returned', rel⟩ := simulates value returned
  exact ⟨value', returned', implies value value' rel⟩

theorem bind {Next : β → β' → Prop} {continue_ : α → Except ε β} {continue' : α' → Except ε' β'}
    (simulates : Simulates Related call other) (next : ∀ value value', Related value value' →
      Simulates Next (continue_ value) (continue' value')) :
    Simulates Next (call >>= continue_) (other >>= continue') := by
  intro result ended
  obtain ⟨value, returned, ended⟩ := Loop.bind_eq_ok.mp ended
  obtain ⟨value', returned', rel⟩ := simulates value returned
  obtain ⟨result', finished', relatedResult⟩ := next value value' rel result ended
  exact ⟨result', Loop.bind_eq_ok.mpr ⟨value', returned', finished'⟩, relatedResult⟩

/-! ## Lists -/

/-- Mapping over a list in another order: the results come in that order. -/
theorem mapM_perm {call : ι → Except ε α} {items others : List ι} (perm : items.Perm others) :
    Simulates List.Perm (items.mapM call) (others.mapM call) := by
  intro results mapped
  obtain ⟨results', rel, reordered⟩ :=
    List.perm_comp_forall₂ perm.symm (Loop.mapM_eq_ok.mp mapped)
  exact ⟨results', Loop.mapM_eq_ok.mpr rel, reordered.symm⟩

theorem foldlM {Related : σ → σ' → Prop} {body : σ → ι → Except ε σ} {body' : σ' → ι → Except ε' σ'}
    {items : List ι} {state : σ} {state' : σ'} (start : Related state state')
    (preserve : ∀ item ∈ items, ∀ current current', Related current current' →
      Simulates Related (body current item) (body' current' item)) :
    Simulates Related (items.foldlM body state) (items.foldlM body' state') := by
  induction items generalizing state state' with
  | nil => exact pure start
  | cons item items ih =>
    refine (preserve item (by simp) state state' start).bind fun next next' rel => ?_
    exact ih rel fun item mem => preserve item (by simp [mem])

theorem run (Related : List ι → σ → σ' → Prop) (Emitted : ω → ω' → Prop)
    {step : σ → ι → Except ε (ω × σ)} {step' : σ' → ι → Except ε' (ω' × σ')}
    {inputs : List ι} {state : σ} {state' : σ'} (start : Related [] state state')
    (preserve : ∀ done input rest current current', inputs = done ++ input :: rest →
      Related done current current' → Simulates (fun result result' => Emitted result.1 result'.1 ∧
        Related (done ++ [input]) result.2 result'.2) (step current input) (step' current' input)) :
    Simulates (fun result result' => List.Forall₂ Emitted result.1 result'.1 ∧
        Related inputs result.2 result'.2)
      (Loop.run step state inputs) (Loop.run step' state' inputs) := by
  suffices general : ∀ done rest current current', inputs = done ++ rest →
      Related done current current' →
      Simulates (fun result result' => List.Forall₂ Emitted result.1 result'.1 ∧
        Related inputs result.2 result'.2) (Loop.run step current rest)
          (Loop.run step' current' rest)
    from general [] inputs state state' rfl start
  intro done rest
  induction rest generalizing done with
  | nil =>
    intro current current' split rel
    rw [List.append_nil] at split
    rw [split]
    exact ok ⟨.nil, rel⟩
  | cons input rest ih =>
    intro current current' split rel
    refine (preserve done input rest current current' split rel).bind
      fun stepped stepped' relatedStep => ?_
    refine (ih (done ++ [input]) stepped.2 stepped'.2 (by simp [split])
      relatedStep.2).bind fun final final' relatedFinal => ?_
    exact pure ⟨.cons relatedStep.1 relatedFinal.1, relatedFinal.2⟩

end Simulates

end RockStream.Lib
