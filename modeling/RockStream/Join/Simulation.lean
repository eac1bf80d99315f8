import RockStream.Arrangement.Agree
import RockStream.Join.Law

/-!
Contract: inner join states that agree on the keys an epoch touches.

An epoch reads and writes both arrangements only under the keys of its two deltas. Two
states that hold the same rows under those keys therefore emit the same rows and go on
agreeing, whatever else they hold.

Owns:
- `AgreeOn`, agreement of two states on a set of keys;
- its preservation by each part of an epoch, by an epoch and by a run.

Does not own: how two states come to agree.
-/

namespace RockStream

open Lib StagedDelta

/-- The same rows under the given keys, the same staged rows, all under those keys, and the same
dirty rows. -/
structure JoinState.AgreeOn (Keys : Bytes → Prop) (first second : JoinState) : Prop where
  left : ∀ joinKey, Keys joinKey → Arrangement.SameAt joinKey first.leftArr second.leftArr
  right : ∀ joinKey, Keys joinKey → Arrangement.SameAt joinKey first.rightArr second.rightArr
  leftStaged : first.leftStaged.rows = second.leftStaged.rows
  rightStaged : first.rightStaged.rows = second.rightStaged.rows
  leftInside : ∀ row ∈ first.leftStaged.rows, Keys row.1.joinKey
  rightInside : ∀ row ∈ first.rightStaged.rows, Keys row.1.joinKey
  dirtyLeft : ∀ row, row ∈ first.dirtyLeft ↔ row ∈ second.dirtyLeft
  dirtyRight : ∀ row, row ∈ first.dirtyRight ↔ row ∈ second.dirtyRight

theorem JoinState.AgreeOn.symm {Keys : Bytes → Prop} {first second : JoinState}
    (agree : AgreeOn Keys first second) : AgreeOn Keys second first where
  left := fun joinKey isKey => (agree.left joinKey isKey).symm
  right := fun joinKey isKey => (agree.right joinKey isKey).symm
  leftStaged := agree.leftStaged.symm
  rightStaged := agree.rightStaged.symm
  leftInside := agree.leftStaged ▸ agree.leftInside
  rightInside := agree.rightStaged ▸ agree.rightInside
  dirtyLeft := fun row => (agree.dirtyLeft row).symm
  dirtyRight := fun row => (agree.dirtyRight row).symm

namespace JoinOp

variable {op : JoinOp} {Keys : Bytes → Prop} {first second : JoinState}

/-- An emitted batch and the state after it, alike on both sides. -/
def EpochAlike (Keys : Bytes → Prop) (result result' : ArrowZSet × JoinState) : Prop :=
  ArrowZSet.Alike result.1 result'.1 ∧ result.2.AgreeOn Keys result'.2

theorem processDelta_simulates {keyCols : List Nat} {probe probe' : Bytes → List (Bytes × Int)}
    {join : Bytes × Int → Bytes × Int → Exec (List Cell × Int)}
    {stage : JoinState → Entry → Int → JoinState} {delta : ArrowZSet}
    (probes : ∀ joinKey, Keys joinKey → (probe joinKey).Perm (probe' joinKey))
    (stages : ∀ state state' entry weight, JoinState.AgreeOn Keys state state' →
      Keys entry.joinKey → JoinState.AgreeOn Keys (stage state entry weight)
        (stage state' entry weight))
    (inside : ∀ row ∈ op.staged keyCols delta.rows, Keys row.1.joinKey)
    (agree : first.AgreeOn Keys second) :
    Simulates (EpochAlike Keys) (op.processDelta keyCols probe join stage first delta)
      (op.processDelta keyCols probe' join stage second delta) := by
  have looped : Simulates (fun current current' : JoinState × List (List Cell × Int) =>
      current.1.AgreeOn Keys current'.1 ∧ current.2.Perm current'.2)
      (delta.rows.foldlM (op.processRow keyCols probe join stage) (first, []))
      (delta.rows.foldlM (op.processRow keyCols probe' join stage) (second, [])) := by
    refine Simulates.foldlM ⟨agree, .refl _⟩ fun row mem current current' rel => ?_
    refine (Exec.within_simulates _ _ (Simulates.same _)).bind ?_
    rintro _ entry ⟨rfl, extracted⟩
    cases entry with
    | none => exact Simulates.pure rel
    | some entry =>
      have isKey : Keys entry.joinKey :=
        inside (entry, row.2) (List.mem_filterMap.mpr ⟨row, mem, by rw [extracted]⟩)
      refine (Exec.within_simulates _ _ (Simulates.mapM_perm (probes _ isKey))).bind
        fun joined joined' perm => ?_
      exact Simulates.pure ⟨stages _ _ entry row.2 rel.1 isKey, rel.2.append perm⟩
  refine looped.bind fun current current' rel => ?_
  refine (Exec.within_simulates _ _ (ArrowZSet.tryNew_simulates _ rel.2)).bind
    fun batch batch' alike => ?_
  exact Simulates.pure ⟨alike, rel.1⟩

theorem processLeftDelta_simulates {delta : ArrowZSet} (agree : first.AgreeOn Keys second)
    (inside : ∀ row ∈ op.staged op.leftKeyCols delta.rows, Keys row.1.joinKey) :
    Simulates (EpochAlike Keys) (op.processLeftDelta first delta)
      (op.processLeftDelta second delta) := by
  refine processDelta_simulates (fun joinKey isKey => (agree.right joinKey isKey).probe_perm) ?_
    inside agree
  intro state state' entry weight agreeing isKey
  refine { agreeing with
    leftStaged := by simp [push, agreeing.leftStaged]
    leftInside := ?_ }
  exact List.forall_mem_append.mpr ⟨agreeing.leftInside, List.forall_mem_singleton.mpr isKey⟩

theorem processRightDelta_simulates {delta : ArrowZSet} (agree : first.AgreeOn Keys second)
    (inside : ∀ row ∈ op.staged op.rightKeyCols delta.rows, Keys row.1.joinKey) :
    Simulates (EpochAlike Keys) (op.processRightDelta first delta)
      (op.processRightDelta second delta) := by
  refine processDelta_simulates (fun joinKey isKey => (agree.left joinKey isKey).probe_perm) ?_
    inside agree
  intro state state' entry weight agreeing isKey
  refine { agreeing with
    rightStaged := by simp [push, agreeing.rightStaged]
    rightInside := ?_ }
  exact List.forall_mem_append.mpr ⟨agreeing.rightInside, List.forall_mem_singleton.mpr isKey⟩

theorem applyStaged_simulates (agree : first.AgreeOn Keys second) :
    Simulates (JoinState.AgreeOn Keys) (applyStaged first) (applyStaged second) := by
  unfold applyStaged
  rw [← agree.leftStaged, ← agree.rightStaged]
  refine (Arranged.drain_simulates ⟨agree.left, agree.dirtyLeft⟩ agree.leftInside).bind
    fun left left' leftAgree => ?_
  refine (Arranged.drain_simulates ⟨agree.right, agree.dirtyRight⟩ agree.rightInside).bind
    fun right right' rightAgree => ?_
  exact Simulates.pure
    { left := leftAgree.rows, right := rightAgree.rows, leftStaged := rfl, rightStaged := rfl
      leftInside := by simp [empty], rightInside := by simp [empty]
      dirtyLeft := leftAgree.dirty, dirtyRight := rightAgree.dirty }

theorem commitEpoch_simulates (agree : first.AgreeOn Keys second) :
    Simulates (EpochAlike Keys) (op.commitEpoch first) (op.commitEpoch second) := by
  have corrected : op.correction second = op.correction first := by
    unfold correction
    rw [agree.leftStaged, agree.rightStaged]
  unfold commitEpoch
  rw [corrected]
  refine (Exec.within_simulates _ _ (Simulates.same _)).bind ?_
  rintro _ out ⟨rfl, _⟩
  refine (Exec.within_simulates _ _ (applyStaged_simulates agree)).bind
    fun next next' agreeing => ?_
  refine (Exec.within_simulates _ _ (Simulates.refl ArrowZSet.Alike.refl _)).bind
    fun batch batch' alike => ?_
  exact Simulates.pure ⟨alike, agreeing⟩

theorem processEpoch_simulates {epoch : ArrowZSet × ArrowZSet} (agree : first.AgreeOn Keys second)
    (leftInside : ∀ row ∈ op.leftDelta epoch, Keys row.1.joinKey)
    (rightInside : ∀ row ∈ op.rightDelta epoch, Keys row.1.joinKey) :
    Simulates (EpochAlike Keys) (op.processEpoch first epoch) (op.processEpoch second epoch) := by
  refine (processLeftDelta_simulates agree leftInside).bind fun left left' leftAlike => ?_
  refine (processRightDelta_simulates leftAlike.2 rightInside).bind
    fun right right' rightAlike => ?_
  refine (commitEpoch_simulates rightAlike.2).bind fun both both' bothAlike => ?_
  refine (Exec.within_simulates _ _ (ArrowZSet.concatZsets_simulates _
    (.cons leftAlike.1 (.cons rightAlike.1 (.cons bothAlike.1 .nil))))).bind
    fun output output' alike => ?_
  exact Simulates.pure ⟨alike, bothAlike.2⟩

theorem run_simulates {epochs : List (ArrowZSet × ArrowZSet)}
    (agree : first.AgreeOn (fun _ => True) second) :
    Simulates (fun result result' => List.Forall₂ ArrowZSet.Alike result.1 result'.1 ∧
        result.2.AgreeOn (fun _ => True) result'.2)
      (Loop.run op.processEpoch first epochs) (Loop.run op.processEpoch second epochs) :=
  Simulates.run (fun _ => JoinState.AgreeOn fun _ => True) ArrowZSet.Alike agree
    fun _ _ _ _ _ _ agreeing => processEpoch_simulates agreeing (fun _ _ => trivial)
      (fun _ _ => trivial)

end JoinOp

end RockStream
