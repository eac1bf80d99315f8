import RockStream.Lib.History

/-!
Contract: what a change reaches along dependencies, and an order that visits every
dependency first.

The reached items are computed in passes until a pass adds nothing. The order counts for
every item the dependencies that are not visited yet and visits an item once its count is
zero.

Owns:
- `DependsOn`, the dependencies through other items;
- `reach`, and that it finds exactly the items that depend on a start;
- `dependencyOrder`, and that it visits every item exactly once, after what it names, when the
  dependencies have no cycle.

Does not own: which of several ready items is visited first.
-/

namespace RockStream.Lib

open List

variable {fuel : Nat}

variable {α : Type*} [DecidableEq α]

def DependsOn (deps : α → List α) : α → α → Prop :=
  Relation.TransGen fun item dep => dep ∈ deps item

/-- The dependencies of the items of a list. -/
def depsWithin (items : List α) (deps : α → List α) (item : α) : List α :=
  if item ∈ items then deps item else []

theorem mem_depsWithin {items : List α} {deps : α → List α} {item dep : α} :
    dep ∈ depsWithin items deps item ↔ item ∈ items ∧ dep ∈ deps item := by
  unfold depsWithin
  split <;> simp [*]

/-! ## The reached items -/

def reachItem (deps : α → List α) (reached : List α) (item : α) : List α :=
  if (deps item).any (· ∈ reached) ∧ item ∉ reached then reached ++ [item] else reached

def reachPass (deps : α → List α) (items reached : List α) : List α :=
  items.foldl (reachItem deps) reached

/-- Passes until one adds nothing. -/
def reach (deps : α → List α) (items : List α) : Nat → List α → List α
  | 0, reached => reached
  | fuel + 1, reached =>
    if (reachPass deps items reached).length = reached.length then reached
    else reach deps items fuel (reachPass deps items reached)

section Reach

variable {deps : α → List α} {items reached start : List α} {item : α}

theorem reachItem_extends : reached <+: reachItem deps reached item := by
  unfold reachItem
  split
  · exact prefix_append _ _
  · exact prefix_refl _

theorem reachPass_extends (items reached : List α) : reached <+: reachPass deps items reached := by
  induction items generalizing reached with
  | nil => exact prefix_refl _
  | cons head tail ih => exact reachItem_extends.trans (ih _)

theorem reachPass_sound (Holds : α → Prop)
    (passes : ∀ item ∈ items, ∀ dep ∈ deps item, Holds dep → Holds item)
    (holds : ∀ item ∈ reached, Holds item) : ∀ item ∈ reachPass deps items reached, Holds item := by
  induction items generalizing reached with
  | nil => exact holds
  | cons head tail ih =>
    refine ih (fun item mem => passes item (mem_cons_of_mem _ mem))
      fun item mem => ?_
    unfold reachItem at mem
    split at mem
    · rename_i reachable
      obtain ⟨dep, isDep, isReached⟩ := any_eq_true.mp reachable.1
      rcases mem_append.mp mem with old | new
      · exact holds item old
      · rw [mem_singleton.mp new]
        exact passes head mem_cons_self dep isDep (holds dep (of_decide_eq_true isReached))
    · exact holds item mem

theorem nodup_reachPass (nodup : reached.Nodup) : (reachPass deps items reached).Nodup := by
  induction items generalizing reached with
  | nil => exact nodup
  | cons head tail ih =>
    refine ih ?_
    unfold reachItem
    split
    · rename_i reachable
      exact nodup_append.mpr ⟨nodup, nodup_singleton head, fun old isOld new isNew same =>
        reachable.2 (mem_singleton.mp isNew ▸ same ▸ isOld)⟩
    · exact nodup

theorem mem_reachPass {dep : α} (listed : item ∈ items) (isDep : dep ∈ deps item)
    (isReached : dep ∈ reached) : item ∈ reachPass deps items reached := by
  induction items generalizing reached with
  | nil => exact absurd listed not_mem_nil
  | cons head tail ih =>
    rcases mem_cons.mp listed with rfl | later
    · refine (reachPass_extends tail _).subset ?_
      unfold reachItem
      split
      · exact mem_append_right _ (mem_singleton.mpr rfl)
      · rename_i stays
        by_contra absent
        exact stays ⟨any_eq_true.mpr ⟨dep, isDep, decide_eq_true isReached⟩, absent⟩
    · exact ih later (reachItem_extends.subset isReached)

/-- The passes end with a set that no item of the list extends: every pass but the last one takes
one more item out of a finite list. -/
theorem reach_closed (bounded : List α) (nodup : reached.Nodup)
    (inside : ∀ item ∈ reached, item ∈ bounded) (listedInside : ∀ item ∈ items, item ∈ bounded)
    (enough : bounded.length ≤ reached.length + fuel) {dep : α} (listed : item ∈ items)
    (isDep : dep ∈ deps item) (isReached : dep ∈ reach deps items fuel reached) :
    item ∈ reach deps items fuel reached := by
  induction fuel generalizing reached with
  | zero =>
    have all : reached.Perm bounded :=
      (subperm_of_subset nodup inside).perm_of_length_le enough
    exact all.mem_iff.mpr (listedInside item listed)
  | succ fuel ih =>
    unfold reach at isReached ⊢
    have grows : reached <+: reachPass deps items reached := reachPass_extends _ _
    by_cases same : (reachPass deps items reached).length = reached.length
    · rw [if_pos same] at isReached ⊢
      rw [grows.eq_of_length same.symm]
      exact mem_reachPass listed isDep isReached
    · rw [if_neg same] at isReached ⊢
      have longer : reached.length < (reachPass deps items reached).length :=
        lt_of_le_of_ne grows.length_le (Ne.symm same)
      exact ih (nodup_reachPass nodup)
        (reachPass_sound (· ∈ bounded) (fun item mem _ _ _ => listedInside item mem) inside)
          (by omega)
        isReached

theorem reach_sound (Holds : α → Prop)
    (passes : ∀ item ∈ items, ∀ dep ∈ deps item, Holds dep → Holds item)
    (holds : ∀ item ∈ reached, Holds item) :
    ∀ item ∈ reach deps items fuel reached, Holds item := by
  induction fuel generalizing reached with
  | zero => exact holds
  | succ fuel ih =>
    unfold reach
    split
    · exact holds
    · exact ih (reachPass_sound Holds passes holds)

theorem nodup_reach (nodup : reached.Nodup) : (reach deps items fuel reached).Nodup := by
  induction fuel generalizing reached with
  | zero => exact nodup
  | succ fuel ih =>
    unfold reach
    split
    · exact nodup
    · exact ih (nodup_reachPass nodup)

theorem subset_reach : reached ⊆ reach deps items fuel reached := by
  induction fuel generalizing reached with
  | zero => exact List.Subset.refl _
  | succ fuel ih =>
    unfold reach
    split
    · exact List.Subset.refl _
    · exact List.Subset.trans (reachPass_extends _ _).subset ih

theorem mem_reach (nodup : start.Nodup) :
    item ∈ reach deps items items.length start ↔
      item ∈ start ∨ ∃ origin ∈ start, DependsOn (depsWithin items deps) item origin := by
  constructor
  · refine reach_sound
      (fun item => item ∈ start ∨ ∃ origin ∈ start, DependsOn (depsWithin items deps) item origin)
      (fun item listed dep named => ?_) (fun item mem => .inl mem) item
    have isDep := mem_depsWithin.mpr ⟨listed, named⟩
    rintro (isStart | ⟨origin, isStart, depends⟩)
    · exact .inr ⟨dep, isStart, .single isDep⟩
    · exact .inr ⟨origin, isStart, .head isDep depends⟩
  · rintro (isStart | ⟨origin, isStart, depends⟩)
    · exact subset_reach isStart
    · have step : ∀ {item dep}, dep ∈ depsWithin items deps item →
          dep ∈ reach deps items items.length start →
          item ∈ reach deps items items.length start := fun isDep isReached =>
        reach_closed (start ++ items) nodup
          (fun item mem => mem_append_left _ mem)
          (fun item mem => mem_append_right _ mem) (by simp)
          (mem_depsWithin.mp isDep).1 (mem_depsWithin.mp isDep).2 isReached
      induction depends using Relation.TransGen.head_induction_on with
      | single isDep => exact step isDep (subset_reach isStart)
      | head isDep _ ih => exact step isDep ih

end Reach

/-! ## The order -/

/-- The items that can be visited, the number of unvisited dependencies of each item, and the
visited items. -/
structure DependencyQueue (α : Type*) where
  ready : List α
  degree : α → Nat
  ordered : List α

namespace DependencyQueue

def release (queue : DependencyQueue α) (item : α) : DependencyQueue α where
  ready := if queue.degree item - 1 = 0 then queue.ready.insert item else queue.ready
  degree := Function.update queue.degree item (queue.degree item - 1)
  ordered := queue.ordered

def visit (dependents : α → List α) (queue : DependencyQueue α) (item : α) : DependencyQueue α :=
  (dependents item).foldl release
    { queue with ready := queue.ready.erase item, ordered := queue.ordered ++ [item] }

def visitAll (first : List α → Option α) (dependents : α → List α) :
    Nat → DependencyQueue α → List α
  | 0, queue => queue.ordered
  | fuel + 1, queue =>
    match first queue.ready with
    | none => queue.ordered
    | some item => visitAll first dependents fuel (queue.visit dependents item)

end DependencyQueue

/-- Every candidate that names an item, once for each time it names it. -/
def dependentsOf (deps : α → List α) (candidates : List α) (item : α) : List α :=
  candidates.flatMap fun candidate => ((deps candidate).filter (· = item)).map fun _ => candidate

def dependencyOrder (first : List α → Option α) (deps : α → List α) (candidates : List α) :
    List α :=
  let degree := fun item => (deps item).countP (· ∈ candidates)
  DependencyQueue.visitAll first (dependentsOf deps candidates) candidates.length
    ⟨candidates.filter fun item => degree item = 0, degree, []⟩

section Order

variable {deps : α → List α} {candidates : List α} {queue : DependencyQueue α} {item : α}

theorem count_dependentsOf (nodup : candidates.Nodup) (candidate : α) :
    (dependentsOf deps candidates item).count candidate =
      if candidate ∈ candidates then (deps candidate).count item else 0 := by
  unfold dependentsOf
  induction candidates with
  | nil => simp
  | cons head tail ih =>
    have notInTail := (nodup_cons.mp nodup).1
    have named : ((deps head).filter (· = item)).length = (deps head).count item := by
      rw [← countP_eq_length_filter]
      exact countP_congr fun dep _ => by simp
    rw [flatMap_cons, count_append, ih (nodup_cons.mp nodup).2,
      map_const', count_replicate, named]
    by_cases same : candidate = head
    · subst same
      simp [notInTail]
    · simp [same, Ne.symm same]

/-- Every listed item comes after the candidates it names. -/
def InOrder (deps : α → List α) (candidates : List α) : List α → Prop :=
  Justified fun before item => ∀ dep ∈ deps item, dep ∈ candidates → dep ∈ before

namespace DependencyQueue

theorem mem_ready_release (queue : DependencyQueue α) (head item : α) :
    item ∈ (queue.release head).ready ↔
      item ∈ queue.ready ∨ item = head ∧ queue.degree head ≤ 1 := by
  unfold release
  split
  · grind
  · grind

theorem ordered_foldl_release (dependents : List α) (queue : DependencyQueue α) :
    (dependents.foldl release queue).ordered = queue.ordered := by
  induction dependents generalizing queue with
  | nil => rfl
  | cons head tail ih => exact ih (queue.release head)

@[simp] theorem ordered_visit (dependents : α → List α) (queue : DependencyQueue α) (item : α) :
    (queue.visit dependents item).ordered = queue.ordered ++ [item] :=
  ordered_foldl_release _ _

/-- Released items lose a dependency each time they are listed, and become ready with the last. -/
theorem foldl_release (dependents : List α) (queue : DependencyQueue α)
    (counted : ∀ item, dependents.count item ≤ queue.degree item) :
    (∀ item, (dependents.foldl release queue).degree item =
      queue.degree item - dependents.count item) ∧
    (∀ item, item ∈ (dependents.foldl release queue).ready ↔
      item ∈ queue.ready ∨ item ∈ dependents ∧ queue.degree item = dependents.count item) ∧
    (queue.ready.Nodup → (dependents.foldl release queue).ready.Nodup) := by
  induction dependents generalizing queue with
  | nil => simp
  | cons head tail ih =>
    have released : ∀ item, (queue.release head).degree item =
        queue.degree item - if item = head then 1 else 0 := by
      intro item
      by_cases same : item = head
      · subst same
        simp [release]
      · simp [release, same]
    have counts : ∀ item, (head :: tail).count item =
        tail.count item + if item = head then 1 else 0 := by
      intro item
      by_cases same : item = head
      · simp [same]
      · simp [same, Ne.symm same]
    obtain ⟨degree, ready, nodup⟩ := ih (queue.release head) fun item => by
      have := counted item
      rw [counts] at this
      rw [released]
      omega
    refine ⟨fun item => ?_, fun item => ?_, fun isNodup => nodup ?_⟩
    · rw [foldl_cons, degree, released, counts]
      omega
    · rw [foldl_cons, ready, mem_ready_release, released, counts, mem_cons]
      have bound := counted item
      rw [counts] at bound
      have occurs : item ∈ tail ↔ 0 < tail.count item := count_pos_iff.symm
      by_cases same : item = head
      · subst same
        simp only [if_true, true_and, true_or] at bound ⊢
        rw [occurs, or_assoc]
        refine or_congr_right ?_
        omega
      · simp [same]
    · unfold release
      split
      · exact isNodup.insert
      · exact isNodup

structure Sound (deps : α → List α) (candidates : List α) (queue : DependencyQueue α) : Prop where
  nodupReady : queue.ready.Nodup
  nodupOrdered : queue.ordered.Nodup
  orderedCandidates : ∀ item ∈ queue.ordered, item ∈ candidates
  degree : ∀ item ∈ candidates, item ∉ queue.ordered →
    queue.degree item = (deps item).countP fun dep => dep ∈ candidates ∧ dep ∉ queue.ordered
  ready : ∀ item, item ∈ queue.ready ↔
    item ∈ candidates ∧ item ∉ queue.ordered ∧ queue.degree item = 0
  visited : ∀ item ∈ queue.ordered, ∀ dep ∈ deps item, dep ∈ candidates → dep ∈ queue.ordered

theorem countP_without {items : List α} {test : α → Prop} [DecidablePred test] {item : α}
    (passes : test item) :
    items.countP (fun other => test other ∧ other ≠ item) =
      items.countP test - items.count item := by
  induction items with
  | nil => simp
  | cons head tail ih =>
    have atMost : tail.count item ≤ tail.countP test :=
      countP_mono_left fun other _ same => by
        rw [eq_of_beq same]
        exact decide_eq_true passes
    rw [countP_cons, countP_cons, count_cons, ih]
    by_cases same : head = item
    · subst same
      simp [passes]
    · by_cases holds : test head
      · simp [same, holds]
        omega
      · simp [same, holds]

theorem Sound.visited_of_ready (sound : Sound deps candidates queue)
    (isReady : item ∈ queue.ready) :
    ∀ dep ∈ deps item, dep ∈ candidates → dep ∈ queue.ordered := by
  intro dep isDep depCandidate
  by_contra notBefore
  obtain ⟨isCandidate, unvisited, free⟩ := (sound.ready item).mp isReady
  have counted := (sound.degree item isCandidate unvisited).symm.trans free
  simpa [depCandidate, notBefore] using countP_eq_zero.mp counted dep isDep

theorem Sound.visit (sound : Sound deps candidates queue) (nodup : candidates.Nodup)
    (isReady : item ∈ queue.ready) :
    Sound deps candidates (queue.visit (dependentsOf deps candidates) item) := by
  obtain ⟨isCandidate, unvisited, free⟩ := (sound.ready item).mp isReady
  have visited : ∀ other ∈ queue.ordered ++ [item], ∀ dep ∈ deps other, dep ∈ candidates →
      dep ∈ queue.ordered :=
    forall_mem_append.mpr ⟨sound.visited, forall_mem_singleton.mpr (sound.visited_of_ready isReady)⟩
  -- Nothing visited so far names the item, nor does the item itself.
  have notNamed : ∀ other ∈ queue.ordered ++ [item], item ∉ deps other :=
    fun other mem named => unvisited (visited other mem item named isCandidate)
  have counts : ∀ other, (dependentsOf deps candidates item).count other =
      if other ∈ candidates then (deps other).count item else 0 := count_dependentsOf nodup
  have bounded : ∀ other, (dependentsOf deps candidates item).count other ≤ queue.degree other := by
    intro other
    rw [counts]
    split
    · rename_i otherCandidate
      by_cases done : other ∈ queue.ordered
      · rw [count_eq_zero_of_not_mem (notNamed other (mem_append_left _ done))]
        exact Nat.zero_le _
      · rw [sound.degree other otherCandidate done]
        refine countP_mono_left fun dep _ same => ?_
        rw [eq_of_beq same]
        simp [isCandidate, unvisited]
    · exact Nat.zero_le _
  obtain ⟨degree, ready, nodupReady⟩ := foldl_release (dependentsOf deps candidates item)
    { queue with ready := queue.ready.erase item, ordered := queue.ordered ++ [item] } bounded
  change ∀ other, (queue.visit _ item).degree other = queue.degree other - _ at degree
  change ∀ other, other ∈ (queue.visit _ item).ready ↔
    other ∈ queue.ready.erase item ∨ _ ∧ queue.degree other = _ at ready
  have remaining : ∀ other ∈ candidates, other ∉ queue.ordered ++ [item] →
      (queue.visit (dependentsOf deps candidates) item).degree other =
        (deps other).countP fun dep => dep ∈ candidates ∧ dep ∉ queue.ordered ++ [item] := by
    intro other otherCandidate notDone
    have notBefore : other ∉ queue.ordered := fun mem => notDone (mem_append_left _ mem)
    rw [degree, counts, if_pos otherCandidate, sound.degree other otherCandidate notBefore,
      ← countP_without ⟨isCandidate, unvisited⟩]
    simp [and_assoc]
  constructor
  · exact nodupReady (sound.nodupReady.erase item)
  · rw [ordered_visit]
    exact nodup_append.mpr ⟨sound.nodupOrdered, nodup_singleton item,
      fun old isOld new isNew same => unvisited (mem_singleton.mp isNew ▸ same ▸ isOld)⟩
  · rw [ordered_visit]
    exact forall_mem_append.mpr ⟨sound.orderedCandidates, forall_mem_singleton.mpr isCandidate⟩
  · rw [ordered_visit]
    exact remaining
  · intro other
    rw [ready, ordered_visit, degree]
    have released : other ∈ dependentsOf deps candidates item →
        other ∈ candidates ∧ other ∉ queue.ordered ++ [item] := by
      intro mem
      have positive := count_pos_iff.mpr mem
      rw [counts] at positive
      split at positive
      · exact ⟨‹_›, fun done => notNamed other done (count_pos_iff.mp positive)⟩
      · exact absurd positive (lt_irrefl 0)
    have atMost := bounded other
    constructor
    · rintro (old | ⟨mem, last⟩)
      · obtain ⟨ne, isOld⟩ := (sound.nodupReady.mem_erase_iff).mp old
        obtain ⟨otherCandidate, notBefore, isFree⟩ := (sound.ready other).mp isOld
        exact ⟨otherCandidate, by simp [notBefore, ne], by omega⟩
      · exact ⟨(released mem).1, (released mem).2, by omega⟩
    · rintro ⟨otherCandidate, notDone, isFree⟩
      by_cases named : other ∈ dependentsOf deps candidates item
      · exact .inr ⟨named, by omega⟩
      · rw [count_eq_zero_of_not_mem named] at isFree
        have notBefore : other ∉ queue.ordered := fun mem => notDone (mem_append_left _ mem)
        refine .inl ((sound.nodupReady.mem_erase_iff).mpr ⟨?_, (sound.ready other).mpr
          ⟨otherCandidate, notBefore, isFree⟩⟩)
        rintro rfl
        exact notDone (mem_append_right _ (mem_singleton.mpr rfl))
  · rw [ordered_visit]
    exact fun other mem dep isDep depCandidate =>
      mem_append_left _ (visited other mem dep isDep depCandidate)

end DependencyQueue

variable {first : List α → Option α} {rank : α → Nat} (nodup : candidates.Nodup)
  (picks : ∀ ready item, first ready = some item → item ∈ ready)
  (stops : ∀ ready, first ready = none → ready = [])
  (acyclic : ∀ item, ∀ dep ∈ deps item, rank dep < rank item)
include nodup picks stops acyclic

theorem DependencyQueue.Sound.mem_visitAll (sound : Sound deps candidates queue)
    (inOrder : InOrder deps candidates queue.ordered)
    (enough : candidates.length ≤ queue.ordered.length + fuel) :
    (visitAll first (dependentsOf deps candidates) fuel queue).Nodup ∧
    InOrder deps candidates (visitAll first (dependentsOf deps candidates) fuel queue) ∧
    ∀ item, item ∈ visitAll first (dependentsOf deps candidates) fuel queue ↔
      item ∈ candidates := by
  induction fuel generalizing queue with
  | zero =>
    have all : queue.ordered.Perm candidates :=
      (subperm_of_subset sound.nodupOrdered sound.orderedCandidates).perm_of_length_le enough
    exact ⟨sound.nodupOrdered, inOrder, fun item => all.mem_iff⟩
  | succ fuel ih =>
    unfold visitAll
    cases picked : first queue.ready with
    | some item =>
      have isReady := picks _ _ picked
      refine ih (sound.visit nodup isReady) ?_ ?_
      · rw [ordered_visit]
        exact inOrder.concat (sound.visited_of_ready isReady)
      · rw [ordered_visit, length_append, length_singleton]
        omega
    | none =>
      have isEmpty := stops _ picked
      refine ⟨sound.nodupOrdered, inOrder, fun item => ⟨sound.orderedCandidates item, ?_⟩⟩
      -- A candidate of least rank among the unvisited ones would be ready.
      induction item using (measure rank).wf.induction with
      | h item ih =>
        intro isCandidate
        by_contra unvisited
        have free : queue.degree item = 0 := by
          rw [sound.degree item isCandidate unvisited, countP_eq_zero]
          intro dep isDep
          have visited := ih dep (acyclic item dep isDep)
          simpa using visited
        have isReady := (sound.ready item).mpr ⟨isCandidate, unvisited, free⟩
        rw [isEmpty] at isReady
        exact absurd isReady not_mem_nil

/-- Without a cycle the order has every candidate exactly once, after the candidates it names. -/
theorem mem_dependencyOrder :
    (dependencyOrder first deps candidates).Nodup ∧
    InOrder deps candidates (dependencyOrder first deps candidates) ∧
    ∀ item, item ∈ dependencyOrder first deps candidates ↔ item ∈ candidates := by
  refine DependencyQueue.Sound.mem_visitAll nodup picks stops acyclic ?_ .nil (by simp)
  constructor
  · exact nodup.filter _
  · exact nodup_nil
  · exact nofun
  · intro item isCandidate notVisited
    exact countP_congr fun dep _ => by simp
  · simp
  · exact nofun

end Order

end RockStream.Lib
