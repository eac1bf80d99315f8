import RockStream.Gateway.Catalog

/-!
Contract: the order in which the dependents of a change are refreshed
(`reachable_compiled_views`).

The order counts the dependencies between candidates only. A dependency through a view that
is no candidate is not counted, and a gateway with a data plane takes every reached name for
a candidate, the changed relations included.

Owns: the candidates, and when each compiled dependent is refreshed once, after those it
depends on.

Does not own: the refresh of a view.
-/

namespace RockStream

open Lib List

namespace ViewCatalog

variable (catalog : ViewCatalog) (distributed : Bool) (compiled : Bytes → Bool)
  (changed : List Bytes)

/-- The names that a refresh takes up, of those that a change reaches. -/
def candidates : List Bytes :=
  (reach catalog.viewDeps catalog.views catalog.views.length changed).filter fun name =>
    distributed || compiled name

/-- `reachable_compiled_views`, with the views that a gateway without a data plane has compiled. -/
def reachableCompiledViewsOf : List Bytes :=
  dependencyOrder firstName catalog.viewDeps (catalog.candidates distributed compiled changed)

/-- A view depends on a changed relation, through any views. -/
def Reached (view : Bytes) : Prop := ∃ relation ∈ changed, catalog.Depends view relation

/-- A name is taken up: it is changed or reached, and compiled unless there is a data plane. -/
def TakenUp (name : Bytes) : Prop :=
  (name ∈ changed ∨ catalog.Reached changed name) ∧ (distributed = true ∨ compiled name = true)

/-- Every compiled view that depends on a changed relation is listed once, nothing else is, and a
view comes after the listed views it depends on. -/
structure RefreshesInOrder : Prop where
  nodup : (catalog.reachableCompiledViewsOf distributed compiled changed).Nodup
  members : ∀ view, view ∈ catalog.reachableCompiledViewsOf distributed compiled changed ↔
    compiled view = true ∧ catalog.Reached changed view
  inOrder : ∀ before view after,
    catalog.reachableCompiledViewsOf distributed compiled changed = before ++ view :: after →
      ∀ dep ∈ catalog.reachableCompiledViewsOf distributed compiled changed,
        catalog.Depends view dep → dep ∈ before

/-- What is taken up is compiled and depends on a change. -/
def OnlyDependents : Prop :=
  ∀ name, catalog.TakenUp distributed compiled changed name →
    compiled name = true ∧ catalog.Reached changed name

/-- What is taken up depends on one another through what is taken up. -/
def ThroughCandidates : Prop :=
  ∀ view dep, catalog.TakenUp distributed compiled changed view →
    catalog.TakenUp distributed compiled changed dep → catalog.Depends view dep →
      Relation.TransGen (fun item dep => dep ∈ catalog.viewDeps item ∧
        catalog.TakenUp distributed compiled changed dep) view dep

end ViewCatalog

theorem InOrder.mem_before {deps : Bytes → List Bytes} {candidates order : List Bytes}
    (inOrder : InOrder deps candidates order) {view dep : Bytes}
    (depends : Relation.TransGen (fun item dep => dep ∈ deps item ∧ dep ∈ candidates) view dep)
    {before after : List Bytes} (split : order = before ++ view :: after) : dep ∈ before := by
  induction depends using Relation.TransGen.head_induction_on generalizing before after with
  | single isDep => exact inOrder before _ after split _ isDep.1 isDep.2
  | head isDep _ ih =>
    have earlier := inOrder before _ after split _ isDep.1 isDep.2
    obtain ⟨front, back, rfl⟩ := append_of_mem earlier
    exact mem_append_left _ (ih (by rw [split, append_assoc, cons_append]))

/-- The visited views are the compiled dependents only if no other name is taken up; and then they
are in order if the dependencies between them go through what is taken up. -/
theorem ViewCatalog.refreshes_in_order (catalog : ViewCatalog) (distributed : Bool)
    (compiled : Bytes → Bool) {changed : List Bytes} (nodup : changed.Nodup) :
    (catalog.RefreshesInOrder distributed compiled changed →
      catalog.OnlyDependents distributed compiled changed) ∧
    (catalog.OnlyDependents distributed compiled changed →
      catalog.ThroughCandidates distributed compiled changed →
      catalog.RefreshesInOrder distributed compiled changed) := by
  have nodupCandidates : (catalog.candidates distributed compiled changed).Nodup :=
    (nodup_reach nodup).filter _
  obtain ⟨nodupOrder, inOrder, members⟩ := mem_dependencyOrder nodupCandidates
    (fun _ _ => mem_of_firstName) (fun _ => eq_nil_of_firstName) catalog.acyclic
  have isCandidate : ∀ name, name ∈ catalog.candidates distributed compiled changed ↔
      catalog.TakenUp distributed compiled changed name := by
    intro name
    rw [candidates, mem_filter, mem_reach nodup, Bool.or_eq_true]
    rfl
  have listed := fun view => (members view).trans (isCandidate view)
  constructor
  · intro refreshes name taken
    exact (refreshes.members name).mp ((listed name).mpr taken)
  · intro only through
    refine ⟨nodupOrder, fun view => ?_, fun before view after split dep isDep depends => ?_⟩
    · exact (listed view).trans ⟨only view, fun both => ⟨.inr both.2, .inr both.1⟩⟩
    · have isView : view ∈ catalog.reachableCompiledViewsOf distributed compiled changed := by
        rw [split]
        exact mem_append_right before mem_cons_self
      have inside := through view dep ((listed view).mp isView) ((listed dep).mp isDep) depends
      exact InOrder.mem_before inOrder
        (inside.lift id fun _ dep named => ⟨named.1, (isCandidate dep).mpr named.2⟩) split

/-! ## Three views in a row -/

/-- `a` is a view over `b`, `b` over `c`, and `c` over the table `t`. -/
def chainCatalog : ViewCatalog where
  views := [[0x61], [0x62], [0x63]]
  viewDeps := fun view => if view = [0x61] then [[0x62]] else if view = [0x62] then [[0x63]]
    else if view = [0x63] then [[0x74]] else []
  rank := fun view => if view = [0x61] then 3 else if view = [0x62] then 2
    else if view = [0x63] then 1 else 0
  acyclic := by
    intro view
    split_ifs <;> simp_all

/-- With all three views compiled, whatever depends on what is taken up is taken up. -/
theorem ViewCatalog.takenUp_chainCatalog {view dep : Bytes}
    (depends : chainCatalog.Depends view dep)
    (taken : chainCatalog.TakenUp false (· ≠ [0x74]) [[0x74]] dep) :
    chainCatalog.TakenUp false (· ≠ [0x74]) [[0x74]] view := by
  refine ⟨.inr ?_, .inr ?_⟩
  · rcases taken.1 with changed | ⟨relation, changed, further⟩
    · exact ⟨dep, changed, depends⟩
    · exact ⟨relation, changed, depends.trans further⟩
  · -- the table depends on nothing
    obtain ⟨named, isDep, -⟩ := Relation.TransGen.head'_iff.mp depends
    refine decide_eq_true fun isTable => ?_
    rw [isTable] at isDep
    exact absurd (mem_depsWithin.mp isDep).1 (by decide)

theorem ViewCatalog.refreshes_in_order_sample :
    chainCatalog.RefreshesInOrder false (· ≠ [0x74]) [[0x74]] := by
  refine (chainCatalog.refreshes_in_order false _ (by decide)).2 ?_ ?_
  · rintro name ⟨changed | reached, isCompiled⟩
    · simp_all
    · exact ⟨by simpa using isCompiled, reached⟩
  · rintro view dep - taken depends
    induction depends using Relation.TransGen.head_induction_on with
    | single isDep => exact .single ⟨(mem_depsWithin.mp isDep).2, taken⟩
    | head isDep further ih =>
      exact .head ⟨(mem_depsWithin.mp isDep).2, takenUp_chainCatalog further taken⟩ ih

/-- With `a` and `c` compiled and `b` not, `a` is refreshed before `c`. -/
theorem ViewCatalog.skipped_view_breaks_order :
    ¬ chainCatalog.RefreshesInOrder false (· ∈ [[0x61], [0x63]]) [[0x74]] := by
  intro refreshes
  have overView : chainCatalog.Depends [0x61] [0x62] := .single (by decide)
  have depends : chainCatalog.Depends [0x61] [0x63] := overView.tail (by decide)
  exact absurd (refreshes.inOrder [] [0x61] [[0x63]] (by decide +kernel) [0x63] (by decide +kernel)
    depends) not_mem_nil

end RockStream
