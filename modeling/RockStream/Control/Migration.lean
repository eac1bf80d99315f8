import RockStream.Lib.Meets

/-!
Contract: states and routes of a shard migration (`MigrationRecord` of
`rockstream-types/src/migration.rs`, `DualWriteRouter` of `rockstream-runtime/src/migration.rs`).

A record may still be aborted or fail after it has recorded that the donor's buckets are deleted;
then all its buckets are routed to the donor again.

Owns: the transitions, the recorded intent, the routes, and when they lead back to the donor.

Does not own: the work done in a state, and the fields of a record that routes do not read.
-/

namespace RockStream

open Lib List

inductive MigrationState where
  | planned | snapshotting | copying | dualWriting | catchingUp | fencingOld
  | cutover | verifying | gcEligible | done | aborted | failed
deriving DecidableEq

structure MigrationRecord where
  state : MigrationState
  donorShards : List Nat
  recipientShard : Nat
  buckets : List Nat
  plannedFrontier : Nat
  targetBucketMapVersion : Nat
  migrationEpoch : Nat
  cutoverEpoch : Option Nat
  cleanupIntent : Bool

inductive MigrationError where
  | invalidTransition (before after : MigrationState)
  | reclamationNotReady (state : MigrationState)

inductive RoutingError where
  | bucketMapVersionMismatch (bucket expected got : Nat)
  /-- `donor_shards[0]` of no donors. -/
  | panicked

def MigrationState.canTransitionTo : MigrationState → MigrationState → Bool
  | .planned, .snapshotting | .snapshotting, .copying | .copying, .dualWriting
  | .dualWriting, .catchingUp | .catchingUp, .fencingOld | .fencingOld, .cutover
  | .cutover, .verifying | .verifying, .dualWriting | .verifying, .gcEligible
  | .gcEligible, .done => true
  | .done, .aborted | .done, .failed | .aborted, .failed | .failed, .aborted => false
  | _, .aborted | _, .failed => true
  | state, next => state = next

namespace MigrationRecord

variable (record : MigrationRecord)

def applyTransition (next : MigrationState) : Except MigrationError MigrationRecord :=
  if ¬ record.state.canTransitionTo next then .error (.invalidTransition record.state next)
  else if record.state = next then .ok record
  else .ok { record with
    state := next
    cutoverEpoch := if next = .cutover then record.cutoverEpoch.or (some record.plannedFrontier)
      else record.cutoverEpoch }

/-- The part of `finish_done` before the donor is cleaned up. -/
def startCleanup : Except MigrationError MigrationRecord :=
  if record.state = .gcEligible then .ok { record with cleanupIntent := true }
  else .error (.reclamationNotReady record.state)

def donor : Except RoutingError (List Nat) :=
  match record.donorShards with
  | donor :: _ => .ok [donor]
  | [] => .error .panicked

def routeTargetsAtEpoch (bucket version epoch : Nat) : Except RoutingError (List Nat) :=
  let migrating := bucket ∈ record.buckets
  let dual := record.state ∈ [.dualWriting, .catchingUp, .fencingOld]
  let moved := record.state ∈ [.cutover, .verifying, .gcEligible, .done]
  if migrating ∧ (dual ∨ moved) ∧ version ≠ record.targetBucketMapVersion then
    .error (.bucketMapVersionMismatch bucket record.targetBucketMapVersion version)
  else if migrating ∧ dual ∧ record.migrationEpoch ≤ epoch then
    record.donor.map (· ++ [record.recipientShard])
  else if migrating ∧ moved ∧ record.cutoverEpoch.getD record.migrationEpoch ≤ epoch then
    .ok [record.recipientShard]
  else record.donor

/-- No migrating bucket is routed to a donor at or after the cutover epoch. -/
def LeavesDonors : Prop :=
  ∀ bucket ∈ record.buckets, ∀ version epoch targets,
    record.cutoverEpoch.getD record.migrationEpoch ≤ epoch →
    record.routeTargetsAtEpoch bucket version epoch = .ok targets →
    ∀ target ∈ targets, target ∉ record.donorShards

variable {record} {final : MigrationRecord}

/-- States that a record reaches after it was about to be cleaned up. -/
def Late (state : MigrationState) : Prop :=
  state = .gcEligible ∨ state = .done ∨ state = .aborted ∨ state = .failed

theorem late_run {nexts : List MigrationState} (late : Late record.state)
    (ran : nexts.foldlM applyTransition record = .ok final) : Late final.state := by
  refine Loop.foldlM_invariant (fun _ current => Late current.state) ?_ late ran
  intro _ current next after late stepped
  unfold applyTransition at stepped
  split at stepped
  · cases stepped
  · rename_i allowed
    split at stepped
    · cases stepped
      exact late
    · cases stepped
      rcases late with state | state | state | state <;> rw [state] at allowed <;>
        cases next <;> simp_all [MigrationState.canTransitionTo, Late]

theorem route_late {bucket version epoch : Nat} (late : Late record.state)
    (mem : bucket ∈ record.buckets)
    (after : record.cutoverEpoch.getD record.migrationEpoch ≤ epoch) :
    record.routeTargetsAtEpoch bucket version epoch =
      if record.state = .aborted ∨ record.state = .failed then record.donor
      else if version ≠ record.targetBucketMapVersion then
        .error (.bucketMapVersionMismatch bucket record.targetBucketMapVersion version)
      else .ok [record.recipientShard] := by
  rcases late with state | state | state | state <;> simp [routeTargetsAtEpoch, state, mem, after]

/-- A state after the intended cleanup leads no migrating bucket back to a donor exactly where the
migration has not been stopped and the recipient is no donor, or where there is no bucket or
donor. -/
theorem leaves_donors_iff {intended : MigrationRecord} {nexts : List MigrationState}
    (started : record.startCleanup = .ok intended)
    (ran : nexts.foldlM applyTransition intended = .ok final) :
    final.LeavesDonors ↔ final.buckets = [] ∨ final.donorShards = [] ∨
      ¬ (final.state = .aborted ∨ final.state = .failed) ∧
        final.recipientShard ∉ final.donorShards := by
  have late : Late final.state := by
    unfold startCleanup at started
    split at started
    · cases started
      exact late_run (.inl ‹_›) ran
    · cases started
  rcases eq_nil_or_concat final.buckets with none | ⟨_, bucket, isBuckets⟩
  · exact iff_of_true (fun bucket mem => absurd mem (by simp [none])) (.inl none)
  have mem : bucket ∈ final.buckets := by simp [isBuckets]
  rw [or_iff_right (ne_nil_of_mem mem)]
  by_cases stopped : final.state = .aborted ∨ final.state = .failed
  · cases donors : final.donorShards with
    | nil =>
      refine iff_of_true (fun bucket mem version epoch targets after routed => ?_) (.inl rfl)
      simp [route_late late mem after, stopped, donor, donors] at routed
    | cons first rest =>
      refine iff_of_false (fun leaves => ?_) (by simp [stopped])
      refine leaves bucket mem 0 _ [first] (Nat.le_refl _) ?_ first mem_cons_self (by simp [donors])
      simp [route_late late mem, stopped, donor, donors]
  · constructor
    · intro leaves
      refine .inr ⟨stopped, leaves bucket mem final.targetBucketMapVersion _ _ (Nat.le_refl _) ?_ _
        (mem_singleton_self _)⟩
      simp [route_late late mem, stopped]
    · intro kept bucket mem version epoch targets after routed target isTarget
      rw [route_late late mem after, if_neg stopped] at routed
      split at routed
      · cases routed
      · cases routed
        rw [mem_singleton.mp isTarget]
        rcases kept with none | ⟨_, outside⟩
        · simp [none]
        · exact outside

/-- A migration of bucket 7 from shard 1 to shard 2 that may be cleaned up. -/
def sample : MigrationRecord := ⟨.gcEligible, [1], 2, [7], 10, 3, 10, some 12, false⟩

theorem leaves_donors_iff_sample :
    LeavesDonors { sample with cleanupIntent := true, state := .done } := by
  have started : sample.startCleanup = .ok { sample with cleanupIntent := true } := rfl
  have ran : [.done].foldlM applyTransition { sample with cleanupIntent := true } =
      .ok { sample with cleanupIntent := true, state := .done } := rfl
  exact (leaves_donors_iff started ran).mpr (by decide)

theorem aborted_cleanup_returns : ∃ intended final, sample.startCleanup = .ok intended ∧
      intended.applyTransition .aborted = .ok final ∧ final.cleanupIntent = true ∧
      final.routeTargetsAtEpoch 7 3 12 = .ok [1] :=
  ⟨_, _, rfl, rfl, rfl, rfl⟩

end MigrationRecord

end RockStream
