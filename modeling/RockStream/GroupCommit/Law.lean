import RockStream.GroupCommit.Invariant

/-!
Contract: in every run of a physical group commit, acknowledged epochs are durable, epochs reach
storage once and in order, the committed frontier does not go back, and the capacity in use is
that of the epochs the group holds, within its limits.

Owns:
- that every step keeps `GroupCore.Sound`;
- `CommitGroup.Advances`, how history, store and frontier grow with a step;
- `CommitGroup.Bounded`, the limits on what a group retains;
- the theorems over whole runs.

Does not own: that the driver gets on.
-/

namespace RockStream

open Lib List CommitGroup Retained SortedMap

variable {stage : FlightStage} {waits : Bool} {next : CommitGroup} {source : FlightSource}
  {last : Nat} {db : ShardDb} {event : GroupEvent}

variable {epoch attempts : Nat} {outcome : FlightOutcome}

def GroupEvent.batch : GroupEvent → Batch
  | .wrote entries => CommitGroup.mergedBatch entries
  | .arrived entries => CommitGroup.mergedBatch entries
  | .stored batch => batch
  | _ => []

theorem FlightStage.not_written (isUnwritten : stage.unwritten) : ¬ stage.written := by
  intro isWritten
  match stage, isUnwritten, isWritten with
  | .writing _, _, isWritten => exact isWritten
  | .done (.writeFailed _), _, isWritten => exact isWritten

namespace CommitGroup

variable {group : CommitGroup} {flight : Flight}

/-! ## Admission -/

theorem newer_of_checkAdmission {batch : Batch}
    (admitted : group.checkAdmission epoch batch = .ok ()) :
    (∀ last, group.state.sealedEpoch = some last → last < epoch) ∧
      group.state.pending.Fresh epoch := by
  have accepted : ¬ (group.state.sealedEpoch.any (epoch ≤ ·) ||
      group.state.pending.entries.any (·.1 == epoch)) = true := by
    intro refused
    unfold checkAdmission at admitted
    dsimp only at admitted
    split at admitted <;> cases admitted
  constructor
  · intro last isLast
    by_contra notNewer
    exact accepted (by simp [isLast, Nat.le_of_not_lt notNewer])
  · rintro entry mem rfl
    refine accepted (Bool.or_eq_true_iff.mpr (.inr (any_eq_true.mpr ⟨entry, mem, ?_⟩)))
    simp

theorem stage_eq_ok {batch : Batch}
    (staged : group.stage epoch batch waits = .ok next) :
    group.checkAdmission epoch batch = .ok () ∧ next = { group with
      state := group.enqueue epoch batch
      waiters := if waits then epoch :: group.waiters else group.waiters }.record
        [.accepted epoch batch] := by
  obtain ⟨_, admitted, built⟩ := Loop.bind_eq_ok.mp staged
  exact ⟨admitted, (Except.ok.inj built).symm⟩

/-! ## Every step keeps the invariant -/

section

variable (sound : group.core.Sound)
include sound

theorem sound_stage {batch : Batch}
    (staged : group.stage epoch batch waits = .ok next) : next.core.Sound := by
  obtain ⟨admitted, rfl⟩ := stage_eq_ok staged
  obtain ⟨newer, fresh⟩ := newer_of_checkAdmission admitted
  exact sound.enqueue newer fresh

theorem sound_answerRequests {reply : Except String (List Nat)}
    (empty : ∀ epochs, reply = .ok epochs → epochs = []) :
    (group.answerRequests reply).core.Sound := by
  refine sound.extend fun event mem => ?_
  obtain ⟨request, _, rfl⟩ := mem_map.mp mem
  refine ⟨⟨rfl, rfl⟩, ?_⟩
  cases reply with
  | error error => trivial
  | ok epochs =>
    rw [empty epochs rfl]
    exact nofun

theorem sound_refuseUnknown : group.refuseUnknown.core.Sound := by
  unfold refuseUnknown
  split
  · exact sound_answerRequests sound nofun
  · exact sound

end

theorem driver_refuseUnknown (group : CommitGroup) : group.refuseUnknown.driver = group.driver := by
  unfold refuseUnknown
  split <;> rfl

theorem sound_depart (sound : group.core.Sound) (idle : group.driver = .idle)
    (begun : beginOwner (!group.state.pending.entries.isEmpty)
      (!group.state.uncertain.entries.isEmpty)
      group.state.writeOutcomeUnknown = some source) : (group.depart source).core.Sound := by
  unfold beginOwner at begun
  split at begun
  · cases begun
  · rename_i allowed
    simp only [Bool.or_eq_true, Bool.and_eq_true, not_or, not_and,
      Bool.not_eq_true', Bool.not_eq_true, Bool.not_eq_false', List.isEmpty_iff] at allowed
    split at begun
    · rename_i hasUncertain
      obtain rfl := Option.some.inj begun
      cases isLast : group.state.uncertain.lastKey with
      | none => simp [lastKey_eq_none.mp isLast] at hasUncertain
      | some last =>
        simpa [depart, core, isLast] using
          sound.departUncertain idle allowed.1 isLast group.state.requests
    · rename_i noUncertain
      obtain rfl := Option.some.inj begun
      have empty : group.state.uncertain.entries = [] := by simpa using noUncertain
      cases isLast : group.state.pending.lastKey with
      | none =>
        exact absurd empty (allowed.2 (lastKey_eq_none.mp isLast))
      | some last =>
        simpa [depart, core, isLast] using
          sound.departPending idle empty isLast group.state.requests

theorem sound_drive (sound : group.core.Sound) (idle : group.driver = .idle) (due : Bool) :
    (group.drive due).core.Sound := by
  have soundNow := sound_refuseUnknown sound
  have idleNow := (driver_refuseUnknown group).trans idle
  unfold drive
  dsimp only
  split
  · rename_i ready
    split
    · rename_i source begun
      exact sound_depart soundNow idleNow begun
    · rename_i none
      -- The guard of a flight is the guard of `begin_owner`.
      simp only [Bool.and_eq_true, Bool.or_eq_true, Bool.not_eq_true'] at ready
      obtain ⟨⟨_, some⟩, decided⟩ := ready
      rw [beginOwner, decided, if_neg (by rcases some with some | some <;> simp [some])] at none
      split at none <;> cases none
  · split
    · exact sound_answerRequests soundNow fun epochs isOk => (Except.ok.inj isOk).symm
    · exact soundNow

def Ends (stage : FlightStage) : FlightOutcome → Prop
  | .durable => stage = .done .durable
  | .writeFailed _ => stage.unwritten
  | .flushUnknown _ => stage.written
  | .writeUnknown _ => True

/-- The transition of `finish`: none of its checks fails. -/
def transition (retained : Retained) (frontier : Option Nat) (flight : Flight) (last : Nat) :
    FlightResult → FlightTransition
  | .durable => ⟨.committed, retained.sub (.of flight.entries.entries), some last, true⟩
  | .writeFailed => ⟨.pending, retained, frontier, false⟩
  | .outcomeUnknown => ⟨.uncertain, retained, frontier, false⟩

theorem finishTransition_eq (sound : group.core.Sound) (flying : group.driver = .flying flight)
    (ends : Ends flight.stage outcome) (isLast : flight.entries.lastKey = some last) :
    finishTransition flight.source outcome.result group.state.retained (.of flight.entries.entries)
      group.state.lastCommitted last =
    some (transition group.state.retained group.state.lastCommitted flight last
      outcome.result) := by
  have known := sound.flight flight flying
  have ledger := GroupCore.ledger_of_flying sound flying
  have counted : group.state.retained = _ := ledger.counted
  obtain ⟨⟨batch, isEntry⟩, _⟩ := lastKey_eq_some isLast
  have someEpochs : (of flight.entries.entries).epochs ≠ 0 :=
    fun noEpochs => known.nonempty (length_eq_zero_iff.mp noEpochs)
  have writable : ¬ (flight.source = .uncertain ∧ outcome.result = .writeFailed) := by
    rintro ⟨isRetried, isFailed⟩
    cases outcome with
    | writeFailed error => exact FlightStage.not_written ends (known.retried isRetried)
    | _ => cases isFailed
  have passes : ¬ ((flight.source = .uncertain ∧ outcome.result = .writeFailed) ∨
      (of flight.entries.entries).epochs = 0 ∨
      group.state.retained.epochs < (of flight.entries.entries).epochs ∨
      group.state.retained.bytes < (of flight.entries.entries).bytes ∨
      group.state.retained.operations < (of flight.entries.entries).operations) := by
    rw [counted, of_append]
    rintro (unwritable | noEpochs | fewer | fewer | fewer)
    · exact writable unwritable
    · exact someEpochs noEpochs
    all_goals exact absurd fewer (Nat.not_lt.mpr (Nat.le_add_left _ _))
  unfold finishTransition
  rw [if_neg passes]
  cases result : outcome.result with
  | durable =>
    have forward : group.state.lastCommitted.any (last < ·) = false := by
      cases isFrontier : group.state.lastCommitted with
      | none => rfl
      | some frontier =>
        simpa using Nat.le_of_lt (ledger.frontier_lt frontier isFrontier _ isEntry)
    simp [forward, transition]
  | writeFailed => rfl
  | outcomeUnknown => rfl

theorem committed_of_durable (sound : group.core.Sound) (flying : group.driver = .flying flight)
    (isDurable : flight.stage = .done .durable) :
    ∀ epoch ∈ flight.entries.entries.map Prod.fst, Committed group.history epoch := by
  intro epoch mem
  obtain ⟨entry, isEntry, rfl⟩ := mem_map.mp mem
  have durable := (sound.flight flight flying).durable isDurable entry isEntry
  refine ⟨entry.2, ?_, ?_, durable⟩
  · exact sound.ledger.accepted entry (mem_append_left _ durable.wrote.mem_landed)
  · exact filter_key_of_sorted sound.ledger.in_order durable.wrote.mem_landed

theorem sound_settle {flight : Flight} (sound : group.core.Sound)
    (committed : outcome = .durable → ∀ epoch ∈ flight.entries.entries.map Prod.fst,
      Committed group.history epoch) :
    (group.settle flight outcome).core.Sound := by
  refine sound.extend fun event mem => ?_
  rcases mem_append.mp mem with isAnswer | isFlushed
  · obtain ⟨epoch, isEpoch, rfl⟩ := mem_map.mp isAnswer
    refine ⟨⟨rfl, rfl⟩, ?_⟩
    cases outcome with
    | durable => exact committed rfl epoch (mem_filter.mp isEpoch).1
    | _ => trivial
  · obtain ⟨request, _, rfl⟩ := mem_map.mp isFlushed
    refine ⟨⟨rfl, rfl⟩, ?_⟩
    cases outcome with
    | durable => exact committed rfl
    | _ => trivial

section

variable (sound : group.core.Sound) (flying : group.driver = .flying flight)
include sound flying

theorem sound_finish (ends : Ends flight.stage outcome) :
    (group.finish flight outcome).core.Sound := by
  unfold finish
  cases isLast : flight.entries.lastKey with
  | none => exact absurd (lastKey_eq_none.mp isLast) (sound.flight flight flying).nonempty
  | some last =>
    dsimp only
    rw [finishTransition_eq sound flying ends isLast]
    refine sound_settle ?_ ?_
    · cases outcome with
      | durable => exact sound.commit flying ends isLast
      | writeFailed error => exact sound.giveBack flying ends
      | flushUnknown error => exact sound.suspend flying fun _ => ends
      | writeUnknown error => exact sound.suspend flying nofun
    · rintro rfl
      have committed := committed_of_durable sound flying ends
      exact committed

theorem sound_dropFlight : (group.dropFlight flight).core.Sound :=
  sound_finish sound flying trivial

section

variable (writing : flight.stage = .writing attempts)
include writing

theorem sound_land_stage
    (brings : event = .wrote flight.entries.entries ∨ event = .arrived flight.entries.entries)
    (notUnwritten : ¬ stage.unwritten)
    (written : stage.written → event = .wrote flight.entries.entries)
    (notDurable : stage ≠ .done .durable) :
    (({ group with db := db }.record [event]).continueAt flight stage).core.Sound := by
  have isUnwritten : flight.stage.unwritten := by
    rw [writing]
    trivial
  have fromPending : flight.source = .pending := by
    cases source : flight.source with
    | pending => rfl
    | uncertain =>
      exact absurd ((sound.flight flight flying).retried source)
        (FlightStage.not_written isUnwritten)
  refine sound.bring flying isUnwritten ?_ ?_ ?_ notUnwritten written notDurable fromPending
  all_goals rcases brings with rfl | rfl
  all_goals first | rfl | exact fun _ => trivial

theorem sound_land (applied : Bool) (error : String) :
    ((group.land flight applied).continueAt flight (.done (.writeUnknown error))).core.Sound := by
  unfold land
  split
  · exact sound_land_stage sound flying writing (.inr rfl) nofun nofun nofun
  · refine sound.restage flying (fun isRetried => ?_) nofun nofun nofun
    have isWritten := (sound.flight flight flying).retried isRetried
    rw [writing] at isWritten
    exact isWritten.elim

theorem sound_write (outcome : WriteOutcome) :
    (group.write flight attempts outcome).core.Sound := by
  cases outcome with
  | ok =>
    simp only [write]
    split
    · exact sound_land_stage sound flying writing (.inl rfl) nofun (fun _ => rfl) nofun
    · exact sound_dropFlight sound flying
  | failed error =>
    refine sound.restage flying (fun isRetried => ?_) ?_ ?_ ?_
    · have isWritten := (sound.flight flight flying).retried isRetried
      rw [writing] at isWritten
      exact isWritten.elim
    · exact fun _ => by rw [writing]; trivial
    all_goals split <;> exact nofun
  | timedOut applied => exact sound_land sound flying writing applied _

end

theorem sound_flushStore (flushing : flight.stage = .flushing attempts) (failure : Option String) :
    (group.flushStore flight attempts failure).core.Sound := by
  have isWritten : flight.stage.written := by
    rw [flushing]
    trivial
  cases failure with
  | none =>
    have flushed : (group.record [.flushed]).core.Sound := by
      refine sound.extend fun event mem => ?_
      obtain rfl := mem_singleton.mp mem
      exact ⟨⟨rfl, rfl⟩, trivial⟩
    exact flushed.restage flying (fun _ => trivial) nofun (fun _ => isWritten) fun _ entry mem =>
      ((sound.flight flight flying).written isWritten entry mem).durable
  | some error =>
    refine sound.restage flying (fun _ => ?_) ?_ (fun _ => isWritten) ?_
    · split <;> trivial
    all_goals split <;> exact nofun

end

theorem sound_step (sound : group.core.Sound) (step : GroupStep) :
    (group.step step).core.Sound := by
  -- A step that does not apply leaves the group as it is.
  cases step <;> simp only [step, flush] <;> (try split) <;> try exact sound
  · exact sound_stage sound (by assumption)
  · next registered =>
    split at registered
    · obtain rfl := Except.ok.inj registered
      exact sound
    · cases registered
  · exact sound_drive sound (by assumption) _
  · exact sound_write sound (by assumption) rfl _
  · exact sound_flushStore sound (by assumption) rfl _
  · next outcome flying =>
    refine sound_finish sound flying ?_
    cases outcome <;> trivial
  · next applied _ _ _ _ _ flying =>
    -- Dropping a flight does not read its stage.
    have dropped := sound_dropFlight (sound_land sound flying rfl applied "") rfl
    exact dropped
  · exact sound_dropFlight sound (by assumption)
  · refine sound.extend fun event mem => ?_
    obtain rfl := mem_singleton.mp mem
    exact ⟨⟨rfl, rfl⟩, trivial⟩

theorem sound_start (db : ShardDb) (maxBytes maxEpochs : Nat) (frontier : Option Nat) :
    (start db maxBytes maxEpochs frontier).core.Sound := by
  refine ⟨nofun, ?_, nofun, nofun⟩
  exact {
    counted := rfl
    sent_lt_pending := nofun
    sent_le_sealed := by
      rintro epoch (⟨batch, mem⟩ | isFrontier)
      · cases mem
      · exact ⟨epoch, isFrontier, Nat.le_refl _⟩
    sent_le_held := fun some => absurd rfl some
    frontier_lt := nofun
    accepted := nofun
    known := nofun
    accepted_once := nodup_nil
    in_order := List.Pairwise.nil
    justified := Justified.nil }

theorem sound_run (sound : group.core.Sound) (steps : List GroupStep) :
    (group.run steps).core.Sound := by
  induction steps generalizing group with
  | nil => exact sound
  | cons step steps ih => exact ih (sound_step sound step)

/-! ## How a group advances -/

/-- The history grows, the store gets what the new events wrote, and the frontier does not go
back. -/
structure Advances (group next : CommitGroup) : Prop where
  recorded : ∃ events, next.history = group.history ++ events ∧
    next.db.store = group.db.store.writeBatch (events.flatMap GroupEvent.batch)
  frontier : ∀ epoch, group.state.lastCommitted = some epoch →
    ∃ later, next.state.lastCommitted = some later ∧ epoch ≤ later

namespace Advances

variable {middle : CommitGroup}

theorem trans (first : Advances group middle) (second : Advances middle next) :
    Advances group next := by
  obtain ⟨early, earlyHistory, earlyStore⟩ := first.recorded
  obtain ⟨late, lateHistory, lateStore⟩ := second.recorded
  refine ⟨⟨early ++ late, ?_, ?_⟩, fun epoch isFrontier => ?_⟩
  · rw [lateHistory, earlyHistory, append_assoc]
  · rw [lateStore, earlyStore, flatMap_append, Store.writeBatch_append]
  · obtain ⟨between, isBetween, le⟩ := first.frontier epoch isFrontier
    obtain ⟨later, isLater, le'⟩ := second.frontier between isBetween
    exact ⟨later, isLater, Nat.le_trans le le'⟩

/-- Events that write nothing. -/
theorem of_quiet {events : List GroupEvent} (sameDb : next.db = group.db)
    (sameFrontier : next.state.lastCommitted = group.state.lastCommitted)
    (history : next.history = group.history ++ events)
    (quiet : ∀ event ∈ events, event.batch = []) : Advances group next where
  recorded := by
    refine ⟨events, history, ?_⟩
    rw [sameDb, flatMap_eq_nil_iff.mpr quiet]
    rfl
  frontier := fun epoch isFrontier => ⟨epoch, sameFrontier.trans isFrontier, Nat.le_refl _⟩

theorem of_same (sameDb : next.db = group.db)
    (sameFrontier : next.state.lastCommitted = group.state.lastCommitted)
    (sameHistory : next.history = group.history) : Advances group next :=
  of_quiet sameDb sameFrontier (sameHistory.trans (append_nil _).symm) nofun

theorem refl : Advances group group := of_same rfl rfl rfl

theorem of_write {batch : Batch} (written : group.db.writeBatch batch = .ok db)
    (writes : event.batch = batch) : Advances group ({ group with db := db }.record [event]) where
  recorded := by
    unfold ShardDb.writeBatch at written
    split at written
    · obtain rfl := Except.ok.inj written
      simp [record, writes]
    · cases written
  frontier := fun epoch isFrontier => ⟨epoch, isFrontier, Nat.le_refl _⟩

end Advances

theorem advances_answerRequests (reply : Except String (List Nat)) :
    Advances group (group.answerRequests reply) := by
  refine .of_quiet rfl rfl rfl fun event mem => ?_
  obtain ⟨request, _, rfl⟩ := mem_map.mp mem
  rfl

theorem advances_drive (due : Bool) : Advances group (group.drive due) := by
  have refused : Advances group group.refuseUnknown := by
    unfold refuseUnknown
    split
    · exact advances_answerRequests _
    · exact .refl
  refine refused.trans ?_
  unfold drive
  dsimp only
  split
  · split <;> exact .of_same rfl rfl rfl
  · split
    · exact advances_answerRequests _
    · exact .refl

theorem frontier_finishTransition {result : FlightResult}
    {retained flying : Retained} {frontier : Option Nat} {next : FlightTransition}
    (ended : finishTransition source result retained flying frontier last = some next)
    (isFrontier : frontier = some epoch) : ∃ later, next.frontier = some later ∧ epoch ≤ later := by
  unfold finishTransition at ended
  split at ended
  · cases ended
  · cases result with
    | durable =>
      dsimp only at ended
      split at ended
      · cases ended
      · rename_i notBack
        obtain rfl := Option.some.inj ended
        exact ⟨last, rfl, by simpa [isFrontier] using notBack⟩
    | writeFailed | outcomeUnknown =>
      obtain rfl := Option.some.inj ended
      exact ⟨epoch, isFrontier, Nat.le_refl _⟩

theorem advances_settle (outcome : FlightOutcome) :
    Advances group (group.settle flight outcome) := by
  refine .of_quiet rfl rfl rfl fun event mem => ?_
  rcases mem_append.mp mem with isAnswer | isFlushed
  · obtain ⟨epoch, _, rfl⟩ := mem_map.mp isAnswer
    rfl
  · obtain ⟨request, _, rfl⟩ := mem_map.mp isFlushed
    rfl

theorem advances_finish (outcome : FlightOutcome) :
    Advances group (group.finish flight outcome) := by
  unfold finish
  split
  · exact .of_same rfl rfl rfl
  · split
    · exact .of_same rfl rfl rfl
    · rename_i next ended
      have moved : Advances group
          { group with state := afterFlight group.state flight outcome next, driver := .idle } :=
        ⟨⟨[], (append_nil _).symm, rfl⟩, fun epoch => frontier_finishTransition ended⟩
      exact moved.trans (advances_settle outcome)

theorem advances_land (applied : Bool) : Advances group (group.land flight applied) := by
  unfold land
  split
  · exact .of_write (by assumption) rfl
  · exact .refl

theorem advances_write (attempts : Nat) (outcome : WriteOutcome) :
    Advances group (group.write flight attempts outcome) := by
  cases outcome with
  | ok =>
    simp only [write]
    split
    · exact (Advances.of_write (by assumption) rfl).trans (.of_same rfl rfl rfl)
    · exact advances_finish _
  | failed error => exact .of_same rfl rfl rfl
  | timedOut applied => exact (advances_land applied).trans (.of_same rfl rfl rfl)

theorem advances_step (step : GroupStep) : Advances group (group.step step) := by
  cases step <;> simp only [step, flush] <;> (try split) <;> try exact .of_same rfl rfl rfl
  · next staged =>
    obtain ⟨_, rfl⟩ := stage_eq_ok staged
    exact .of_quiet rfl rfl rfl fun event mem => by rw [mem_singleton.mp mem]; rfl
  · next registered =>
    split at registered
    · obtain rfl := Except.ok.inj registered
      exact .of_same rfl rfl rfl
    · cases registered
  · exact advances_drive _
  · exact advances_write _ _
  · next failure _ _ _ _ _ _ =>
    cases failure with
    | none =>
      refine .of_quiet rfl rfl rfl fun event mem => ?_
      rw [mem_singleton.mp mem]
      rfl
    | some error => exact .of_same rfl rfl rfl
  · exact advances_finish _
  · exact (advances_land _).trans (advances_finish _)
  · exact advances_finish _
  · exact .of_write (by assumption) rfl

theorem advances_run (steps : List GroupStep) : Advances group (group.run steps) := by
  induction steps generalizing group with
  | nil => exact .refl
  | cons step steps ih => exact (advances_step step).trans ih

/-- Whatever callers, storage and cancellations do: a positive answer comes after a successful
write of the epoch's accepted batch, the only one that brought it to the store, and a successful
flush after it; the epochs that reached the store did so in increasing order, each once and with
the batch it was accepted with; the store holds what those writes and other writers made of it;
and the committed frontier never goes back. -/
theorem group_commit_durable_and_ordered (db : ShardDb) (maxBytes maxEpochs : Nat)
    (frontier : Option Nat) (steps more : List GroupStep) :
    let group := (start db maxBytes maxEpochs frontier).run steps
    Justified Acknowledges group.history ∧
      (landed group.history).Pairwise (fun left right => left.1 < right.1) ∧
      (∀ entry ∈ landed group.history, .accepted entry.1 entry.2 ∈ group.history) ∧
      (acceptedEpochs group.history).Nodup ∧
      group.db.store = db.store.writeBatch (group.history.flatMap GroupEvent.batch) ∧
      ∀ epoch, group.state.lastCommitted = some epoch →
        ∃ later, (group.run more).state.lastCommitted = some later ∧ epoch ≤ later := by
  intro group
  have sound : group.core.Sound := sound_run (sound_start db maxBytes maxEpochs frontier) steps
  obtain ⟨events, history, store⟩ :=
    (advances_run steps : Advances (start db maxBytes maxEpochs frontier) group).recorded
  refine ⟨sound.ledger.justified, sound.ledger.in_order, fun entry member => ?_,
    sound.ledger.accepted_once, ?_, ?_⟩
  · exact sound.ledger.accepted entry (mem_append_left _ member)
  · rw [store, history]
    rfl
  · exact (advances_run more).frontier

/-- The driver never panics, and every accepted epoch is in the store or kept. -/
theorem accepted_never_lost (db : ShardDb) (maxBytes maxEpochs : Nat) (frontier : Option Nat)
    (steps : List GroupStep) :
    let group := (start db maxBytes maxEpochs frontier).run steps
    group.driver ≠ .panicked ∧ ∀ epoch ∈ acceptedEpochs group.history,
      ∃ batch, .accepted epoch batch ∈ group.history ∧
        (epoch, batch) ∈ landed group.history ++ (group.state.pending.entries ++
          (group.state.uncertain.entries ++ group.driver.entries)) := by
  have sound := sound_run (sound_start db maxBytes maxEpochs frontier) steps
  refine ⟨sound.running, fun epoch accepted => ?_⟩
  obtain ⟨batch, kept⟩ := sound.ledger.known epoch accepted
  exact ⟨batch, sound.ledger.accepted _ kept, kept⟩

/-! ## Capacity -/

/-- The group has these limits, and what it retains is within them. -/
def Bounded (maxBytes maxEpochs : Nat) (group : CommitGroup) : Prop :=
  (group.maxBytes = maxBytes ∧ group.maxEpochs = maxEpochs) ∧
    group.state.retained.bytes ≤ maxBytes ∧ group.state.retained.epochs ≤ maxEpochs ∧
    group.state.retained.operations ≤ MAX_GROUP_COMMIT_OPERATIONS

section

variable {maxBytes maxEpochs : Nat} (bounded : group.Bounded maxBytes maxEpochs)
include bounded

theorem bounded_drive (due : Bool) : (group.drive due).Bounded maxBytes maxEpochs := by
  have refused : group.refuseUnknown.Bounded maxBytes maxEpochs := by
    unfold refuseUnknown
    split <;> exact bounded
  unfold drive
  dsimp only
  split
  · split <;> exact refused
  · split <;> exact refused

theorem bounded_finish (outcome : FlightOutcome) :
    (group.finish flight outcome).Bounded maxBytes maxEpochs := by
  unfold finish finishTransition
  split
  · exact bounded
  split
  · exact bounded
  · next ended =>
    obtain ⟨limits, bytes, epochs, operations⟩ := bounded
    -- A flight gives its own part back or keeps what it has.
    cases result : outcome.result <;> simp only [result] at ended <;> split at ended
    all_goals try split at ended
    all_goals cases ended
    · exact ⟨limits, (Nat.sub_le _ _).trans bytes, (Nat.sub_le _ _).trans epochs,
        (Nat.sub_le _ _).trans operations⟩
    all_goals exact ⟨limits, bytes, epochs, operations⟩

theorem bounded_land (applied : Bool) : (group.land flight applied).Bounded maxBytes maxEpochs := by
  unfold land
  split <;> exact bounded

theorem bounded_write (attempts : Nat) (outcome : WriteOutcome) :
    (group.write flight attempts outcome).Bounded maxBytes maxEpochs := by
  cases outcome with
  | ok =>
    simp only [write]
    split
    · exact bounded
    · exact bounded_finish bounded _
  | failed error => exact bounded
  | timedOut applied => exact bounded_land bounded applied

theorem bounded_step (step : GroupStep) : (group.step step).Bounded maxBytes maxEpochs := by
  cases step <;> simp only [step, flush] <;> (try split) <;> try exact bounded
  · next staged =>
    obtain ⟨⟨rfl, rfl⟩, _⟩ := bounded
    obtain ⟨admitted, rfl⟩ := stage_eq_ok staged
    unfold checkAdmission at admitted
    dsimp only at admitted
    split_ifs at admitted with _ _ _ fewBytes fewEpochs _ fewOperations
    exact ⟨⟨rfl, rfl⟩, Nat.le_of_not_lt fewBytes, Nat.lt_of_not_le fewEpochs,
      Nat.le_of_not_lt fewOperations⟩
  · next registered =>
    split at registered
    · obtain rfl := Except.ok.inj registered
      exact bounded
    · cases registered
  · exact bounded_drive bounded _
  · exact bounded_write bounded _ _
  · next failure _ _ _ _ _ _ => cases failure <;> exact bounded
  · exact bounded_finish bounded _
  · exact bounded_finish (bounded_land bounded _) _
  · exact bounded_finish bounded _

theorem bounded_run (steps : List GroupStep) :
    (group.run steps).Bounded maxBytes maxEpochs := by
  induction steps generalizing group with
  | nil => exact bounded
  | cons step steps ih => exact ih (bounded_step bounded step)

end

/-- After any steps, the counters are those of the pending, uncertain and flying epochs together,
and within the limits the group was started with. -/
theorem retention_accounted (db : ShardDb) (maxBytes maxEpochs : Nat) (frontier : Option Nat)
    (steps : List GroupStep) :
    let group := (start db maxBytes maxEpochs frontier).run steps
    group.state.retained = .of (group.state.pending.entries ++
      (group.state.uncertain.entries ++ group.driver.entries)) ∧
    group.state.retained.bytes ≤ maxBytes ∧ group.state.retained.epochs ≤ maxEpochs ∧
      group.state.retained.operations ≤ MAX_GROUP_COMMIT_OPERATIONS := by
  have sound := sound_run (sound_start db maxBytes maxEpochs frontier) steps
  have bounded : (start db maxBytes maxEpochs frontier).Bounded maxBytes maxEpochs :=
    ⟨⟨rfl, rfl⟩, Nat.zero_le _, Nat.zero_le _, Nat.zero_le _⟩
  exact ⟨sound.ledger.counted, (bounded_run bounded steps).2⟩

end CommitGroup

end RockStream
