import RockStream.GroupCommit.Physical
import RockStream.Lib.History

/-!
Contract: the invariant of a physical group commit.

Owns:
- the history functions `landed` and `acceptedEpochs`, and `Committed`;
- `Ledger`, what a history says of the entries that a group still has, and how it changes;
- `GroupCore`, the part of a group that the order of epochs depends on, `GroupCore.Sound`, its
  invariant, and one lemma for every kind of change.

Does not own: which step of a group makes which change.
-/

namespace RockStream

open Lib List SortedMap Retained

variable {epoch last : Nat} {batch : Batch} {stage : FlightStage}

variable {events : List GroupEvent} {event : GroupEvent}

/-! ## What a history says -/

def GroupEvent.landed : GroupEvent → List (Nat × Batch)
  | .wrote entries => entries
  | .arrived entries => entries
  | _ => []

def GroupEvent.epochIn : GroupEvent → Option Nat
  | .accepted epoch _ => some epoch
  | _ => none

variable (history : List GroupEvent)

def landed : List (Nat × Batch) := history.flatMap GroupEvent.landed

def acceptedEpochs : List Nat := history.filterMap GroupEvent.epochIn

/-- A successful write contained the entry. -/
def Wrote (entry : Nat × Batch) : Prop :=
  ∃ entries, entry ∈ entries ∧ .wrote entries ∈ history

/-- A successful write contained the entry, and a later flush of the store succeeded. -/
def Durable (entry : Nat × Batch) : Prop :=
  ∃ entries, entry ∈ entries ∧ [.wrote entries, .flushed].Sublist history

/-- The epoch was accepted with a batch, that batch reached the store exactly once, by a successful
write, and is durable. -/
def Committed (epoch : Nat) : Prop :=
  ∃ batch, .accepted epoch batch ∈ history ∧
    (landed history).filter (·.1 = epoch) = [(epoch, batch)] ∧ Durable history (epoch, batch)

/-- What a positive answer needs. -/
def Acknowledges (before : List GroupEvent) : GroupEvent → Prop
  | .answered epoch (.ok _) => Committed before epoch
  | .flushAnswered _ (.ok epochs) => ∀ epoch ∈ epochs, Committed before epoch
  | _ => True

variable {history} {entry : Nat × Batch}

@[simp] theorem landed_append (history more : List GroupEvent) :
    landed (history ++ more) = landed history ++ landed more :=
  flatMap_append

@[simp] theorem acceptedEpochs_append (history more : List GroupEvent) :
    acceptedEpochs (history ++ more) = acceptedEpochs history ++ acceptedEpochs more :=
  filterMap_append

theorem Wrote.append (wrote : Wrote history entry) (more : List GroupEvent) :
    Wrote (history ++ more) entry := by
  obtain ⟨entries, inside, mem⟩ := wrote
  exact ⟨entries, inside, mem_append_left _ mem⟩

theorem Durable.append (durable : Durable history entry) (more : List GroupEvent) :
    Durable (history ++ more) entry := by
  obtain ⟨entries, inside, ordered⟩ := durable
  exact ⟨entries, inside, ordered.trans (sublist_append_left _ _)⟩

theorem Durable.wrote (durable : Durable history entry) : Wrote history entry := by
  obtain ⟨entries, inside, ordered⟩ := durable
  exact ⟨entries, inside, ordered.subset mem_cons_self⟩

theorem Wrote.durable (wrote : Wrote history entry) : Durable (history ++ [.flushed]) entry := by
  obtain ⟨entries, inside, mem⟩ := wrote
  exact ⟨entries, inside, (singleton_sublist.mpr mem).append (List.Sublist.refl _)⟩

theorem Wrote.mem_landed (wrote : Wrote history entry) : entry ∈ landed history := by
  obtain ⟨entries, inside, mem⟩ := wrote
  exact mem_flatMap.mpr ⟨_, mem, inside⟩

/-- Events that neither bring epochs to the store nor take epochs in. -/
def Silent (events : List GroupEvent) : Prop :=
  ∀ event ∈ events, event.landed = [] ∧ event.epochIn = none

theorem Silent.landed (silent : Silent events) : landed events = [] :=
  flatMap_eq_nil_iff.mpr fun event mem => (silent event mem).1

theorem Silent.acceptedEpochs (silent : Silent events) : acceptedEpochs events = [] :=
  filterMap_eq_nil_iff.mpr fun event mem => (silent event mem).2

theorem Committed.extend (committed : Committed history epoch)
    (silent : Silent events) : Committed (history ++ events) epoch := by
  obtain ⟨batch, isAccepted, once, durable⟩ := committed
  refine ⟨batch, mem_append_left _ isAccepted, ?_, durable.append events⟩
  rw [landed_append, silent.landed, append_nil, once]

theorem Acknowledges.extend (reason : Acknowledges history event) (silent : Silent events) :
    Acknowledges (history ++ events) event := by
  match event, reason with
  | .answered _ (.ok _), committed => exact Committed.extend committed silent
  | .flushAnswered _ (.ok _), committed =>
    exact fun epoch mem => (committed epoch mem).extend silent
  | .answered _ (.error _), _ | .flushAnswered _ (.error _), _ | .accepted _ _, _ | .wrote _, _
  | .arrived _, _ | .flushed, _ | .stored _, _ => trivial

/-! ## Capacity -/

namespace Retained

theorem of_append (left right : List (Nat × Batch)) :
    of (left ++ right) = ⟨(of left).epochs + (of right).epochs, (of left).bytes + (of right).bytes,
      (of left).operations + (of right).operations⟩ := by
  simp [of]

theorem of_cons (epoch : Nat) (batch : Batch) (entries : List (Nat × Batch)) :
    of ((epoch, batch) :: entries) = ⟨(of entries).epochs + 1, (of entries).bytes + byteSize batch,
      (of entries).operations + batch.length⟩ := by
  simp [of, Nat.add_comm]

theorem of_perm {left right : List (Nat × Batch)} (perm : left.Perm right) :
    of left = of right := by
  unfold of
  rw [perm.length_eq, (perm.map _).sum_eq, (perm.map _).sum_eq]

theorem of_append_sub (left right : List (Nat × Batch)) :
    (of (left ++ right)).sub (of right) = of left := by
  rw [of_append]
  simp [sub]

end Retained

/-! ## The ledger -/

/-- The epoch has left the pending ones: it reached the store, is held, or is the frontier. -/
def Sent (history : List GroupEvent) (held : List (Nat × Batch)) (frontier : Option Nat)
    (epoch : Nat) : Prop :=
  (∃ batch, (epoch, batch) ∈ landed history ++ held) ∨ frontier = some epoch

/-- What is known of the pending entries and of the held ones, which are uncertain or with the
driver. -/
structure Ledger (history : List GroupEvent) (pending held : List (Nat × Batch))
    (frontier sealedEpoch : Option Nat) (retained : Retained) : Prop where
  counted : retained = .of (pending ++ held)
  sent_lt_pending : ∀ epoch, Sent history held frontier epoch → ∀ entry ∈ pending, epoch < entry.1
  sent_le_sealed : ∀ epoch, Sent history held frontier epoch →
    ∃ last, sealedEpoch = some last ∧ epoch ≤ last
  sent_le_held : held ≠ [] → ∀ epoch, Sent history held frontier epoch →
    ∃ entry ∈ held, epoch ≤ entry.1
  frontier_lt : ∀ epoch, frontier = some epoch → ∀ entry ∈ held, epoch < entry.1
  accepted : ∀ entry ∈ landed history ++ (pending ++ held), .accepted entry.1 entry.2 ∈ history
  known : ∀ epoch ∈ acceptedEpochs history,
    ∃ batch, (epoch, batch) ∈ landed history ++ (pending ++ held)
  accepted_once : (acceptedEpochs history).Nodup
  in_order : (landed history).Pairwise fun left right => left.1 < right.1
  justified : Justified Acknowledges history

namespace Ledger

variable {pending held : List (Nat × Batch)} {frontier sealedEpoch : Option Nat}
  {retained : Retained}

theorem sent_of_mem (mem : entry ∈ held) : Sent history held frontier entry.1 :=
  .inl ⟨entry.2, mem_append_right _ mem⟩

theorem sent_of_landed (mem : entry ∈ landed history) : Sent history held frontier entry.1 :=
  .inl ⟨entry.2, mem_append_left _ mem⟩

section

variable (ledger : Ledger history pending held frontier sealedEpoch retained)
include ledger

/-- The order in which entries are kept does not matter. -/
theorem perm {pending' held' : List (Nat × Batch)} (samePending : pending'.Perm pending)
    (sameHeld : held'.Perm held) : Ledger history pending' held' frontier sealedEpoch retained := by
  have same := samePending.append sameHeld
  have sent : ∀ epoch, Sent history held' frontier epoch → Sent history held frontier epoch := by
    rintro epoch (⟨batch, mem⟩ | isFrontier)
    · exact .inl ⟨batch, (sameHeld.append_left _).mem_iff.mp mem⟩
    · exact .inr isFrontier
  exact { ledger with
    counted := (of_perm same).symm ▸ ledger.counted
    sent_lt_pending := fun epoch isSent entry mem =>
      ledger.sent_lt_pending epoch (sent epoch isSent) entry (samePending.mem_iff.mp mem)
    sent_le_sealed := fun epoch isSent => ledger.sent_le_sealed epoch (sent epoch isSent)
    sent_le_held := by
      intro some epoch isSent
      have someBefore : held ≠ [] := fun none => some (perm_nil.mp (none ▸ sameHeld))
      obtain ⟨entry, mem, le⟩ := ledger.sent_le_held someBefore epoch (sent epoch isSent)
      exact ⟨entry, sameHeld.mem_iff.mpr mem, le⟩
    frontier_lt := fun epoch isFrontier entry mem =>
      ledger.frontier_lt epoch isFrontier entry (sameHeld.mem_iff.mp mem)
    accepted := fun entry mem => ledger.accepted entry ((same.append_left _).mem_iff.mp mem)
    known := by
      intro epoch mem
      obtain ⟨batch, isKnown⟩ := ledger.known epoch mem
      exact ⟨batch, (same.append_left _).mem_iff.mpr isKnown⟩ }

/-- Events that say nothing of epochs, with answers that have their reason already. -/
theorem extend (silent : Silent events) (reason : ∀ event ∈ events, Acknowledges history event) :
    Ledger (history ++ events) pending held frontier sealedEpoch retained := by
  have sameLanded : landed (history ++ events) = landed history := by simp [silent.landed]
  have sameAccepted : acceptedEpochs (history ++ events) = acceptedEpochs history := by
    simp [silent.acceptedEpochs]
  have sameSent : Sent (history ++ events) held frontier = Sent history held frontier := by
    unfold Sent
    rw [sameLanded]
  refine ⟨ledger.counted, ?_, ?_, ?_, ledger.frontier_lt, ?_, ?_, ?_, ?_, ?_⟩
  · exact sameSent ▸ ledger.sent_lt_pending
  · exact sameSent ▸ ledger.sent_le_sealed
  · exact sameSent ▸ ledger.sent_le_held
  · exact fun entry mem => mem_append_left _ (ledger.accepted entry (sameLanded ▸ mem))
  · rw [sameAccepted, sameLanded]
    exact ledger.known
  · exact sameAccepted ▸ ledger.accepted_once
  · exact sameLanded ▸ ledger.in_order
  · exact ledger.justified.extend fun event mem more isPrefix =>
      Acknowledges.extend (reason event mem)
        fun other isOther => silent other (isPrefix.subset isOther)

theorem bring (brings : event.landed = held) (takesNothing : event.epochIn = none)
    (noAnswer : ∀ before, Acknowledges before event)
    (sorted : held.Pairwise fun left right => left.1 < right.1)
    (above : ∀ old ∈ landed history, ∀ entry ∈ held, old.1 < entry.1) :
    Ledger (history ++ [event]) pending held frontier sealedEpoch retained := by
  have landedNow : landed (history ++ [event]) = landed history ++ held := by simp [landed, brings]
  have sameAccepted : acceptedEpochs (history ++ [event]) = acceptedEpochs history := by
    simp [acceptedEpochs, takesNothing]
  have sent : ∀ epoch, Sent (history ++ [event]) held frontier epoch →
      Sent history held frontier epoch := by
    rintro epoch (⟨batch, mem⟩ | isFrontier)
    · rw [landedNow] at mem
      exact .inl ⟨batch, by simpa using mem⟩
    · exact .inr isFrontier
  refine ⟨ledger.counted, fun epoch isSent => ledger.sent_lt_pending epoch (sent epoch isSent),
    fun epoch isSent => ledger.sent_le_sealed epoch (sent epoch isSent),
    fun some epoch isSent => ledger.sent_le_held some epoch (sent epoch isSent),
    ledger.frontier_lt, ?_, ?_, ?_, ?_, ledger.justified.concat (noAnswer _)⟩
  · intro entry mem
    rw [landedNow] at mem
    refine mem_append_left _ (ledger.accepted entry ?_)
    simp only [mem_append] at mem ⊢
    tauto
  · intro epoch mem
    obtain ⟨batch, isKnown⟩ := ledger.known epoch (sameAccepted ▸ mem)
    refine ⟨batch, ?_⟩
    rw [landedNow]
    simp only [mem_append] at isKnown ⊢
    tauto
  · exact sameAccepted ▸ ledger.accepted_once
  · rw [landedNow]
    exact pairwise_append.mpr ⟨ledger.in_order, sorted, above⟩

/-- An epoch above everything sealed is taken in. -/
theorem enqueue (newer : ∀ last, sealedEpoch = some last → last < epoch)
    (fresh : ∀ entry ∈ pending, entry.1 ≠ epoch) :
    Ledger (history ++ [.accepted epoch batch]) ((epoch, batch) :: pending) held frontier
      sealedEpoch ⟨retained.epochs + 1, retained.bytes + byteSize batch,
        retained.operations + batch.length⟩ := by
  have sameLanded : landed (history ++ [.accepted epoch batch]) = landed history := by
    simp [landed, GroupEvent.landed]
  have acceptedNow : acceptedEpochs (history ++ [.accepted epoch batch]) =
      acceptedEpochs history ++ [epoch] := by
    simp [acceptedEpochs, GroupEvent.epochIn]
  have sameSent : Sent (history ++ [.accepted epoch batch]) held frontier =
      Sent history held frontier := by
    unfold Sent
    rw [sameLanded]
  have sent_lt : ∀ old, Sent history held frontier old → old < epoch := by
    intro old isSent
    obtain ⟨last, isLast, le⟩ := ledger.sent_le_sealed old isSent
    exact Nat.lt_of_le_of_lt le (newer last isLast)
  refine ⟨?_, ?_, sameSent ▸ ledger.sent_le_sealed, sameSent ▸ ledger.sent_le_held,
    ledger.frontier_lt, ?_, ?_, ?_, sameLanded ▸ ledger.in_order, ledger.justified.concat trivial⟩
  · rw [cons_append, of_cons, ← ledger.counted]
  · intro old isSent entry mem
    rw [sameSent] at isSent
    rcases mem_cons.mp mem with rfl | isOld
    · exact sent_lt old isSent
    · exact ledger.sent_lt_pending old isSent entry isOld
  · intro entry mem
    rw [sameLanded, cons_append] at mem
    rcases mem_append.mp mem with isLanded | isKept
    · exact mem_append_left _ (ledger.accepted entry (mem_append_left _ isLanded))
    · rcases mem_cons.mp isKept with rfl | isOld
      · exact mem_append_right _ (mem_singleton.mpr rfl)
      · exact mem_append_left _ (ledger.accepted entry (mem_append_right _ isOld))
  · intro old mem
    rw [sameLanded, cons_append]
    rcases mem_append.mp (acceptedNow ▸ mem) with isOld | isNew
    · obtain ⟨oldBatch, isKnown⟩ := ledger.known old isOld
      exact ⟨oldBatch, mem_append.mpr
        ((mem_append.mp isKnown).imp_right (mem_cons_of_mem _))⟩
    · obtain rfl := mem_singleton.mp isNew
      exact ⟨batch, mem_append_right _ mem_cons_self⟩
  · rw [acceptedNow]
    refine nodup_append.mpr ⟨ledger.accepted_once, nodup_singleton _, ?_⟩
    rintro old isOld new isNew rfl
    obtain rfl := mem_singleton.mp isNew
    obtain ⟨oldBatch, isKnown⟩ := ledger.known old isOld
    simp only [mem_append] at isKnown
    rcases isKnown with isLanded | isPending | isHeld
    · exact Nat.lt_irrefl _ (sent_lt old (sent_of_landed isLanded))
    · exact fresh _ isPending rfl
    · exact Nat.lt_irrefl _ (sent_lt old (sent_of_mem isHeld))

end

theorem depart (ledger : Ledger history pending [] frontier sealedEpoch retained)
    (mem : entry ∈ pending) (greatest : ∀ other ∈ pending, other.1 ≤ entry.1) :
    Ledger history [] pending frontier (some entry.1) retained := by
  have sent_le : ∀ epoch, Sent history pending frontier epoch → epoch ≤ entry.1 := by
    rintro epoch (⟨batch, isSent⟩ | isFrontier)
    · rcases mem_append.mp isSent with isLanded | isPending
      · exact Nat.le_of_lt (ledger.sent_lt_pending epoch (sent_of_landed isLanded) entry mem)
      · exact greatest _ isPending
    · exact Nat.le_of_lt (ledger.sent_lt_pending epoch (.inr isFrontier) entry mem)
  exact { ledger with
    counted := by rw [ledger.counted, append_nil, nil_append]
    sent_lt_pending := nofun
    sent_le_sealed := fun epoch isSent => ⟨entry.1, rfl, sent_le epoch isSent⟩
    sent_le_held := fun _ epoch isSent => ⟨entry, mem, sent_le epoch isSent⟩
    frontier_lt := fun epoch isFrontier => ledger.sent_lt_pending epoch (.inr isFrontier)
    accepted := by simpa using ledger.accepted
    known := by simpa using ledger.known }

variable (ledger : Ledger history pending held frontier sealedEpoch retained)
include ledger

/-- The last of the held epochs is sealed again. -/
theorem reseal (mem : entry ∈ held) (greatest : ∀ other ∈ held, other.1 ≤ entry.1) :
    Ledger history pending held frontier (some entry.1) retained := by
  refine { ledger with sent_le_sealed := fun epoch isSent => ⟨entry.1, rfl, ?_⟩ }
  obtain ⟨other, isOther, le⟩ := ledger.sent_le_held (ne_nil_of_mem mem) epoch isSent
  exact Nat.le_trans le (greatest other isOther)

theorem commit (mem : entry ∈ held) (stored : ∀ other ∈ held, other ∈ landed history) :
    Ledger history pending [] (some entry.1) sealedEpoch (retained.sub (.of held)) := by
  have sent : ∀ epoch, Sent history [] (some entry.1) epoch → Sent history held frontier epoch := by
    rintro epoch (⟨batch, isLanded⟩ | isFrontier)
    · exact .inl ⟨batch, mem_append_left _ (append_nil (landed history) ▸ isLanded)⟩
    · exact Option.some.inj isFrontier ▸ sent_of_mem mem
  refine { ledger with
    counted := by rw [ledger.counted, of_append_sub, append_nil]
    sent_lt_pending := fun epoch isSent => ledger.sent_lt_pending epoch (sent epoch isSent)
    sent_le_sealed := fun epoch isSent => ledger.sent_le_sealed epoch (sent epoch isSent)
    sent_le_held := fun some => absurd rfl some
    frontier_lt := nofun
    accepted := fun other isOther => ledger.accepted other ?_
    known := fun epoch isAccepted => ?_ }
  · simp only [append_nil, mem_append] at isOther ⊢
    tauto
  · obtain ⟨batch, isKnown⟩ := ledger.known epoch isAccepted
    refine ⟨batch, ?_⟩
    simp only [append_nil, mem_append] at isKnown ⊢
    tauto

/-- The held entries, of which nothing is in the store, are pending again. -/
theorem giveBack (above : ∀ old ∈ landed history, ∀ entry ∈ held, old.1 < entry.1) :
    Ledger history (pending ++ held) [] frontier sealedEpoch retained := by
  have sent : ∀ epoch, Sent history [] frontier epoch →
      (∃ batch, (epoch, batch) ∈ landed history) ∨ frontier = some epoch := by
    unfold Sent
    simp
  have sentBefore : ∀ epoch, Sent history [] frontier epoch → Sent history held frontier epoch := by
    intro epoch isSent
    rcases sent epoch isSent with ⟨batch, isLanded⟩ | isFrontier
    · exact sent_of_landed isLanded
    · exact .inr isFrontier
  exact { ledger with
    counted := by rw [ledger.counted, append_nil]
    sent_lt_pending := by
      intro epoch isSent entry mem
      rcases mem_append.mp mem with isPending | isHeld
      · exact ledger.sent_lt_pending epoch (sentBefore epoch isSent) entry isPending
      · rcases sent epoch isSent with ⟨batch, isLanded⟩ | isFrontier
        · exact above _ isLanded entry isHeld
        · exact ledger.frontier_lt epoch isFrontier entry isHeld
    sent_le_sealed := fun epoch isSent => ledger.sent_le_sealed epoch (sentBefore epoch isSent)
    sent_le_held := fun some => absurd rfl some
    frontier_lt := nofun
    accepted := by simpa using ledger.accepted
    known := by simpa using ledger.known }

end Ledger

/-! ## The invariant -/

namespace FlightStage

def unwritten : FlightStage → Prop
  | .writing _ => True
  | .done (.writeFailed _) => True
  | _ => False

def written : FlightStage → Prop
  | .flushing _ => True
  | .done .durable => True
  | .done (.flushUnknown _) => True
  | _ => False

end FlightStage

def DriverTask.entries : DriverTask → List (Nat × Batch)
  | .flying flight => flight.entries.entries
  | _ => []

/-- The part of a group that the order of the epochs depends on. -/
structure GroupCore where
  pending : SortedMap Batch
  uncertain : SortedMap Batch
  driver : DriverTask
  retained : Retained
  lastCommitted : Option Nat
  sealedEpoch : Option Nat
  writeOutcomeUnknown : Bool
  history : List GroupEvent

def CommitGroup.core (group : CommitGroup) : GroupCore where
  pending := group.state.pending
  uncertain := group.state.uncertain
  driver := group.driver
  retained := group.state.retained
  lastCommitted := group.state.lastCommitted
  sealedEpoch := group.state.sealedEpoch
  writeOutcomeUnknown := group.state.writeOutcomeUnknown
  history := group.history

namespace GroupCore

def held (core : GroupCore) : List (Nat × Batch) := core.uncertain.entries ++ core.driver.entries

/-- What is known of a flight. -/
structure FlightSound (history : List GroupEvent) (uncertain : SortedMap Batch) (flight : Flight) :
    Prop where
  nonempty : flight.entries.entries ≠ []
  alone : uncertain.entries = []
  retried : flight.source = .uncertain → flight.stage.written
  unwritten : flight.stage.unwritten → ∀ old ∈ landed history,
    ∀ entry ∈ flight.entries.entries, old.1 < entry.1
  written : flight.stage.written → ∀ entry ∈ flight.entries.entries, Wrote history entry
  durable : flight.stage = .done .durable → ∀ entry ∈ flight.entries.entries, Durable history entry

/-- The invariant of a group. -/
structure Sound (core : GroupCore) : Prop where
  running : core.driver ≠ .panicked
  ledger : Ledger core.history core.pending.entries core.held core.lastCommitted core.sealedEpoch
    core.retained
  flight : ∀ flight, core.driver = .flying flight → FlightSound core.history core.uncertain flight
  uncertain_written : core.writeOutcomeUnknown = false →
    ∀ entry ∈ core.uncertain.entries, Wrote core.history entry

variable {core : GroupCore} {flight : Flight}

theorem ledger_of_flying (sound : core.Sound) (flying : core.driver = .flying flight) :
    Ledger core.history core.pending.entries flight.entries.entries core.lastCommitted
      core.sealedEpoch core.retained := by
  have ledger := sound.ledger
  unfold held at ledger
  rwa [(sound.flight flight flying).alone, flying] at ledger

theorem FlightSound.extend {uncertain : SortedMap Batch}
    (sound : FlightSound history uncertain flight)
    (same : landed (history ++ events) = landed history) :
    FlightSound (history ++ events) uncertain flight where
  nonempty := sound.nonempty
  alone := sound.alone
  retried := sound.retried
  unwritten := same.symm ▸ sound.unwritten
  written := fun isWritten entry mem => (sound.written isWritten entry mem).append events
  durable := fun isDurable entry mem => (sound.durable isDurable entry mem).append events

variable (sound : core.Sound)
include sound

theorem Sound.extend (quiet : ∀ event ∈ events,
      (event.landed = [] ∧ event.epochIn = none) ∧ Acknowledges core.history event) :
    ({ core with history := core.history ++ events } : GroupCore).Sound := by
  have silent : Silent events := fun event mem => (quiet event mem).1
  exact {
    running := sound.running
    ledger := sound.ledger.extend silent fun event mem => (quiet event mem).2
    flight := fun flight flying => (sound.flight flight flying).extend (by simp [silent.landed])
    uncertain_written := fun decided entry mem =>
      (sound.uncertain_written decided entry mem).append events }

theorem Sound.restage (flying : core.driver = .flying flight)
    (retried : flight.source = .uncertain → stage.written)
    (unwritten : stage.unwritten → flight.stage.unwritten)
    (written : stage.written → flight.stage.written)
    (durable : stage = .done .durable → ∀ entry ∈ flight.entries.entries,
      Durable core.history entry) :
    ({ core with driver := .flying { flight with stage := stage } } : GroupCore).Sound := by
  have old := sound.flight flight flying
  refine ⟨nofun, ?_, ?_, sound.uncertain_written⟩
  · have ledger := sound.ledger
    unfold held at ledger
    rw [flying] at ledger
    exact ledger
  · rintro other sameFlight
    obtain rfl := DriverTask.flying.inj sameFlight
    exact ⟨old.nonempty, old.alone, retried,
      fun isUnwritten => old.unwritten (unwritten isUnwritten),
      fun isWritten => old.written (written isWritten), durable⟩

theorem Sound.bring (flying : core.driver = .flying flight) (isUnwritten : flight.stage.unwritten)
    (brings : event.landed = flight.entries.entries) (takesNothing : event.epochIn = none)
    (noAnswer : ∀ before, Acknowledges before event)
    (notUnwritten : ¬ stage.unwritten)
    (written : stage.written → event = .wrote flight.entries.entries)
    (notDurable : stage ≠ .done .durable) (notRetried : flight.source = .pending) :
    ({ core with
      driver := .flying { flight with stage := stage }
      history := core.history ++ [event] } : GroupCore).Sound := by
  have old := sound.flight flight flying
  have ledger := ledger_of_flying sound flying
  refine ⟨nofun, ?_, ?_, fun decided entry mem =>
    (sound.uncertain_written decided entry mem).append _⟩
  · unfold held
    rw [old.alone]
    exact ledger.bring brings takesNothing noAnswer flight.entries.sorted
      (old.unwritten isUnwritten)
  · rintro other sameFlight
    obtain rfl := DriverTask.flying.inj sameFlight
    exact {
      nonempty := old.nonempty
      alone := old.alone
      retried := fun isRetried => absurd (notRetried.symm.trans isRetried) (by simp)
      unwritten := fun isUnwritten => absurd isUnwritten notUnwritten
      written := fun isWritten entry mem => ⟨flight.entries.entries, mem,
        mem_append_right _ (written isWritten ▸ mem_singleton.mpr rfl)⟩
      durable := fun isDurable => absurd isDurable notDurable }

theorem Sound.enqueue (newer : ∀ last, core.sealedEpoch = some last → last < epoch)
    (fresh : core.pending.Fresh epoch) :
    ({ core with
      pending := core.pending.insert epoch batch
      retained := ⟨core.retained.epochs + 1, core.retained.bytes + byteSize batch,
        core.retained.operations + batch.length⟩
      history := core.history ++ [.accepted epoch batch] } : GroupCore).Sound where
  running := sound.running
  ledger := (sound.ledger.enqueue newer fresh).perm (insert_perm batch fresh) (.refl _)
  flight := fun flight flying => (sound.flight flight flying).extend
    (by simp [landed, GroupEvent.landed])
  uncertain_written := fun decided entry mem =>
    (sound.uncertain_written decided entry mem).append _

theorem Sound.departPending (idle : core.driver = .idle)
    (noUncertain : core.uncertain.entries = [])
    (isLast : core.pending.lastKey = some last) (requests : List Nat) :
    ({ core with
      pending := .empty
      sealedEpoch := some last
      driver := .flying ⟨core.pending, requests, .pending, .writing 0⟩ } : GroupCore).Sound := by
  obtain ⟨⟨batch, isEntry⟩, isGreatest⟩ := lastKey_eq_some isLast
  have ledger := sound.ledger
  unfold held at ledger
  rw [noUncertain, idle] at ledger
  refine ⟨nofun, ?_, ?_, sound.uncertain_written⟩
  · unfold held
    rw [noUncertain]
    exact ledger.depart isEntry isGreatest
  · rintro flight sameFlight
    obtain rfl := DriverTask.flying.inj sameFlight
    exact {
      nonempty := ne_nil_of_mem isEntry
      alone := noUncertain
      retried := nofun
      unwritten := fun _ old isLanded =>
        ledger.sent_lt_pending old.1 (Ledger.sent_of_landed isLanded)
      written := nofun
      durable := nofun }

theorem Sound.departUncertain (idle : core.driver = .idle)
    (decided : core.writeOutcomeUnknown = false)
    (isLast : core.uncertain.lastKey = some last) (requests : List Nat) :
    ({ core with
      uncertain := .empty
      sealedEpoch := some last
      driver := .flying ⟨core.uncertain, requests, .uncertain, .flushing 0⟩ } :
        GroupCore).Sound := by
  obtain ⟨⟨batch, isEntry⟩, isGreatest⟩ := lastKey_eq_some isLast
  have ledger := sound.ledger
  unfold held at ledger
  rw [idle, show DriverTask.idle.entries = [] from rfl, append_nil] at ledger
  refine ⟨nofun, ledger.reseal isEntry isGreatest, ?_, nofun⟩
  rintro flight sameFlight
  obtain rfl := DriverTask.flying.inj sameFlight
  exact {
    nonempty := ne_nil_of_mem isEntry
    alone := rfl
    retried := fun _ => trivial
    unwritten := nofun
    written := fun _ => sound.uncertain_written decided
    durable := nofun }

variable (flying : core.driver = .flying flight)
include flying

theorem Sound.commit (isDurable : flight.stage = .done .durable)
    (isLast : flight.entries.lastKey = some last) :
    ({ core with
      driver := .idle
      retained := core.retained.sub (.of flight.entries.entries)
      lastCommitted := some last
      writeOutcomeUnknown := false } : GroupCore).Sound := by
  have old := sound.flight flight flying
  obtain ⟨⟨batch, isEntry⟩, _⟩ := lastKey_eq_some isLast
  have ledger := ledger_of_flying sound flying
  refine ⟨nofun, ?_, nofun, fun _ => old.alone ▸ nofun⟩
  unfold held
  rw [old.alone]
  exact ledger.commit isEntry fun entry mem => (old.durable isDurable entry mem).wrote.mem_landed

theorem Sound.giveBack (isUnwritten : flight.stage.unwritten) :
    ({ core with
      driver := .idle
      pending := core.pending.append flight.entries
      writeOutcomeUnknown := false } : GroupCore).Sound := by
  have old := sound.flight flight flying
  have ledger := ledger_of_flying sound flying
  have fresh : ∀ entry ∈ flight.entries.entries, core.pending.Fresh entry.1 :=
    fun entry mem other isPending =>
      Nat.ne_of_gt (ledger.sent_lt_pending _ (Ledger.sent_of_mem mem) other isPending)
  refine ⟨nofun, ?_, nofun, fun _ => old.alone ▸ nofun⟩
  unfold held
  rw [old.alone]
  exact (ledger.giveBack (old.unwritten isUnwritten)).perm
    (append_perm core.pending flight.entries fresh) (.refl _)

theorem Sound.suspend {unknown : Bool} (isWritten : unknown = false → flight.stage.written) :
    ({ core with
      driver := .idle
      uncertain := core.uncertain.append flight.entries
      writeOutcomeUnknown := unknown } : GroupCore).Sound := by
  have old := sound.flight flight flying
  have ledger := ledger_of_flying sound flying
  have appended : (core.uncertain.append flight.entries).entries.Perm flight.entries.entries := by
    have perm := append_perm core.uncertain flight.entries
      fun _ _ => by simp [Fresh, old.alone]
    rwa [old.alone, nil_append] at perm
  refine ⟨nofun, ?_, nofun,
    fun decided entry mem => old.written (isWritten decided) entry (appended.mem_iff.mp mem)⟩
  refine ledger.perm (.refl _) ?_
  unfold held
  rw [show DriverTask.idle.entries = [] from rfl, append_nil]
  exact appended

end GroupCore

end RockStream
