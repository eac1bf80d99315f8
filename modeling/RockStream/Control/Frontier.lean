import RockStream.Control.FrontierStore

/-!
Contract: the cluster frontier of reporting shards (`ingest` and `try_publish` of
`FrontierAggregator`, `rockstream-control/src/frontier.rs`).

The aggregator keeps the greatest report of every shard and publishes the least of them. It never
takes a published frontier back, also when a shard reports less or joins below it.

Owns: both calls; that the frontier never goes down, and where it is below the last reports.

Does not own: configured members, with whom `ingest` is refused, and the lease store, of which
`try_publish` sees one answer.
-/

namespace RockStream

open Lib List

structure FrontierAggregator where
  shardEpochs : HashMap Nat Nat
  published : Option Nat

inductive AggregatorError where
  | registryFull

/-- `proceeds` says that the publisher holds the lease and that its write succeeds. -/
inductive FrontierCall where
  | ingest (shardId epoch : Nat)
  | tryPublish (proceeds : Bool)

def maxRegisteredShards : Nat := 100000

namespace FrontierAggregator

variable (inner : FrontierAggregator)

def computeMeet : Option Nat := inner.shardEpochs.values.min?

/-- A meet that is above the published frontier is published. -/
def publishMeet : FrontierAggregator :=
  match inner.computeMeet with
  | some meet =>
    if inner.published.all (· < meet) then { inner with published := some meet } else inner
  | none => inner

def record (shardId epoch : Nat) : FrontierAggregator :=
  let known := (inner.shardEpochs.lookup shardId).getD 0
  { inner with shardEpochs := inner.shardEpochs.insert shardId (max known epoch) }

def ingest (shardId epoch : Nat) : Except AggregatorError FrontierAggregator :=
  if (inner.shardEpochs.lookup shardId).isNone ∧ maxRegisteredShards ≤ inner.shardEpochs.size then
    .error .registryFull
  else
    .ok (inner.record shardId epoch).publishMeet

def tryPublish (proceeds : Bool) : FrontierAggregator :=
  if proceeds then inner.publishMeet else inner

theorem publishMeet_grows (inner : FrontierAggregator) :
    Grows inner.published inner.publishMeet.published := by
  unfold publishMeet
  split
  · rename_i meet _
    split
    · rename_i above
      intro frontier holds
      rw [holds] at above
      exact ⟨meet, rfl, (of_decide_eq_true above).le⟩
    · exact .refl _
  · exact .refl _

/-- The frontier is the one before, or a meet, which is below every kept report. -/
theorem of_mem_publishMeet {inner : FrontierAggregator} {frontier : Nat}
    (published : frontier ∈ inner.publishMeet.published) : frontier ∈ inner.published ∨
      ∀ shardId, ∀ epoch ∈ inner.shardEpochs.lookup shardId, frontier ≤ epoch := by
  unfold publishMeet at published
  split at published
  · rename_i meet computed
    split at published
    · cases published
      exact .inr fun shardId epoch kept => (min?_eq_some_iff.mp computed).2 epoch
        (HashMap.mem_values.mpr ⟨shardId, kept⟩)
    · exact .inl published
  · exact .inl published

/-- An aggregator, with the last epoch that each shard has reported to it. -/
structure Observed where
  inner : FrontierAggregator
  last : HashMap Nat Nat

namespace Observed

def new : Observed := ⟨⟨∅, none⟩, ∅⟩

def next (observed : Observed) : FrontierCall → Observed
  | .ingest shardId epoch =>
    match observed.inner.ingest shardId epoch with
    | .ok inner => ⟨inner, observed.last.insert shardId epoch⟩
    | .error _ => observed
  | .tryPublish proceeds => { observed with inner := observed.inner.tryPublish proceeds }

/-- A report is not below the one before it of its shard, or below the frontier if it is the
first. -/
def orderly (observed : Observed) : FrontierCall → Prop
  | .ingest shardId epoch =>
    ∀ floor ∈ (observed.last.lookup shardId).or observed.inner.published, floor ≤ epoch
  | .tryPublish _ => True

def orderlyRun : Observed → List FrontierCall → Prop
  | _, [] => True
  | observed, call :: calls => observed.orderly call ∧ (observed.next call).orderlyRun calls

/-- In orderly runs the last reports are kept, and the frontier is below them. -/
structure Sound (observed : Observed) : Prop where
  kept : ∀ shardId, observed.inner.shardEpochs.lookup shardId = observed.last.lookup shardId
  below : ∀ frontier ∈ observed.inner.published, ∀ shardId,
    ∀ epoch ∈ observed.last.lookup shardId, frontier ≤ epoch

variable {observed : Observed}

theorem Sound.publishMeet (sound : observed.Sound) :
    Sound ⟨observed.inner.publishMeet, observed.last⟩ := by
  have same : observed.inner.publishMeet.shardEpochs = observed.inner.shardEpochs := by
    unfold FrontierAggregator.publishMeet
    split
    · split <;> rfl
    · rfl
  refine ⟨fun shardId => (congrArg _ same).trans (sound.kept shardId), fun frontier published => ?_⟩
  rcases of_mem_publishMeet published with before | below
  · exact sound.below frontier before
  · exact fun shardId epoch reported => below shardId epoch ((sound.kept shardId).trans reported)

theorem Sound.record (sound : observed.Sound) {shardId epoch : Nat}
    (orderly : observed.orderly (.ingest shardId epoch)) :
    Sound ⟨observed.inner.record shardId epoch, observed.last.insert shardId epoch⟩ := by
  have known : (observed.last.lookup shardId).getD 0 ≤ epoch ∧
      ∀ frontier ∈ observed.inner.published, frontier ≤ epoch := by
    cases before : observed.last.lookup shardId with
    | none => exact ⟨Nat.zero_le _, fun frontier holds => orderly frontier (by rwa [before])⟩
    | some last =>
      have above : last ≤ epoch := orderly last (by rw [before]; rfl)
      exact ⟨above, fun frontier holds =>
        (sound.below frontier holds shardId last before).trans above⟩
  refine ⟨fun other => ?_, fun frontier holds other value reported => ?_⟩
  · change (AList.insert _ _ _).lookup other = _
    rw [sound.kept, max_eq_right known.1, HashMap.lookup_insert_eq, HashMap.lookup_insert_eq,
      sound.kept]
  · rw [Option.mem_def, HashMap.lookup_insert_eq] at reported
    split at reported
    · cases reported
      exact known.2 frontier holds
    · exact sound.below frontier holds other value reported

/-- What one call does: it publishes over a report, publishes, or does nothing. -/
theorem next_cases (Holds : Observed → Prop) (call : FrontierCall) (stays : Holds observed)
    (publishes : Holds ⟨observed.inner.publishMeet, observed.last⟩)
    (ingests : ∀ shardId epoch, call = .ingest shardId epoch →
      Holds ⟨(observed.inner.record shardId epoch).publishMeet,
        observed.last.insert shardId epoch⟩) : Holds (observed.next call) := by
  cases call with
  | ingest shardId epoch =>
    have recorded := ingests shardId epoch rfl
    rw [next, ingest]
    split
    · rename_i inner accepted
      split at accepted
      · cases accepted
      · cases accepted
        exact recorded
    · exact stays
  | tryPublish proceeds =>
    cases proceeds
    · exact stays
    · exact publishes

theorem Sound.next (sound : observed.Sound) {call : FrontierCall}
    (orderly : observed.orderly call) : (observed.next call).Sound :=
  next_cases Sound call sound sound.publishMeet fun _ _ isCall =>
    (sound.record (isCall ▸ orderly)).publishMeet

theorem Sound.run (sound : observed.Sound) {calls : List FrontierCall}
    (orderly : observed.orderlyRun calls) : (calls.foldl Observed.next observed).Sound := by
  induction calls generalizing observed with
  | nil => exact sound
  | cons call calls ih => exact ih (sound.next orderly.1) orderly.2

theorem next_grows (observed : Observed) (call : FrontierCall) :
    Grows observed.inner.published (observed.next call).inner.published :=
  next_cases (fun after => Grows observed.inner.published after.inner.published) call (.refl _)
    (publishMeet_grows _) fun shardId epoch _ =>
      publishMeet_grows (observed.inner.record shardId epoch)

/-- The frontier never goes down, and in every run where no shard reports less than before or
starts below the frontier, it is below the last report of each shard. -/
theorem frontier_below_reports (calls : List FrontierCall) (orderly : new.orderlyRun calls) :
    let observed := calls.foldl next new
    (∀ frontier ∈ observed.inner.published, ∀ shardId,
      ∀ epoch ∈ observed.last.lookup shardId, frontier ≤ epoch) ∧
    ∀ call, Grows observed.inner.published (observed.next call).inner.published := by
  have start : new.Sound := ⟨fun _ => rfl, fun _ (holds : none = some _) => nomatch holds⟩
  exact ⟨(start.run orderly).below, next_grows _⟩

theorem frontier_below_reports_sample :
    let calls := [FrontierCall.ingest 1 10, .ingest 2 12, .tryPublish true]
    new.orderlyRun calls ∧ (calls.foldl next new).inner.published = some 10 ∧
    ∀ shardId, ∀ epoch ∈ (calls.foldl next new).last.lookup shardId, 10 ≤ epoch := by
  have orderly : new.orderlyRun [.ingest 1 10, .ingest 2 12, .tryPublish true] :=
    ⟨nofun, fun floor (known : some 10 = some floor) => by cases known; decide, trivial, trivial⟩
  exact ⟨orderly, rfl, (frontier_below_reports _ orderly).1 10 rfl⟩

/-- A shard that starts below the frontier leaves it where it is. -/
theorem late_shard_below_frontier :
    let observed := [FrontierCall.ingest 1 10, .ingest 2 3].foldl next new
    observed.inner.published = some 10 ∧ observed.last.lookup 2 = some 3 := ⟨rfl, rfl⟩

end Observed

end FrontierAggregator

end RockStream
