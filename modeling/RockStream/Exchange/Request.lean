import RockStream.Lib.History

/-!
Contract: durable requests of a shard (`execute_durable_request` of
`rockstream-runtime/src/exchange/persistence.rs`).

A call checks its lease, reads the committed frontier, looks its identity up, runs its operation
and writes the outcome together with the frontier as one batch. Nothing excludes other calls
between these parts, and `write_batch` checks the frontier before the batch is written. A batch can
be read before it is durable, and a crash may lose it until then.

Owns: `RequestWorld`, the calls on a shard with one step for every part of a call that another call
can come between; that where no other call comes between the writes of calls and no crash loses a
batch, they run every identity at most once, never move the frontier back, and replay what is
recorded at or above the frontier.

Does not own: the bytes of the records, the operations, of which only success and failure are seen,
other writers of the shard, and the hash function of payloads.
-/

namespace RockStream

open Lib List Function

variable {request : DurableRequest} {phase : RequestPhase} {world : RequestWorld}
  {taken : RequestStep} {steps : List RequestStep}

structure RequestIdentity where
  workloadId : Nat
  shardId : Nat
  operatorId : Nat
  epoch : Nat
  requestId : Nat
deriving DecidableEq

structure DurableExecutionOutcome where
  payloadDigest : List UInt8
  leaseToken : Nat
  committedEpoch : Nat
  success : Bool
deriving DecidableEq

inductive RequestProcessResult where
  | committed (outcome : DurableExecutionOutcome)
  | replayed (outcome : DurableExecutionOutcome)
deriving DecidableEq

/-- The arguments of `execute_durable_request`, the payload by its digest. -/
structure DurableRequest where
  identity : RequestIdentity
  payloadDigest : List UInt8
  leaseToken : Nat
  activeLease : Nat
deriving DecidableEq

def DurableRequest.outcome (request : DurableRequest) : DurableExecutionOutcome :=
  ⟨request.payloadDigest, request.leaseToken, request.identity.epoch, true⟩

/-- The requests whose batches can be read, the last one first, how many of the oldest are known to
be durable, and the last epoch that the open database has seen. -/
structure RequestShard where
  written : List DurableRequest
  durable : Nat
  lastEpoch : Nat

namespace RequestShard

variable (shard : RequestShard)

/-- The committed frontier, which every batch overwrites. -/
def frontier : Nat := (shard.written.head?.map fun request => request.identity.epoch).getD 0

/-- `get_request_identity`. -/
def lookup (identity : RequestIdentity) : Option DurableExecutionOutcome :=
  (shard.written.find? fun request => request.identity = identity).map DurableRequest.outcome

/-- The identities whose outcomes were committed. -/
def commits : List RequestIdentity := shard.written.map DurableRequest.identity

end RequestShard

open RequestShard

/-- Where a call is: the checks of lease and frontier passed, the identity was not found, the check
of `write_batch` passed, the batch can be read, in its position. -/
inductive RequestPhase where
  | submitted
  | ordered
  | fresh
  | checked
  | written (position : Nat)
  | answered (answer : Except String RequestProcessResult)

/-- `execute_durable_request` up to its next access to the shard, or the end of its operation,
either of which may fail. A panic leaves no phase: the frontier may not go back below `lastEpoch`. A
write that fails is taken as not applied; a batch that is not acknowledged as durable can be read. A
batch is durable with all before it. -/
def RequestShard.advance (shard : RequestShard) (request : DurableRequest)
    (failure : Option String) : RequestPhase → Option RequestPhase × RequestShard
  | .submitted =>
    let epoch := request.identity.epoch
    let frontier := shard.frontier
    let token := request.leaseToken
    let active := request.activeLease
    if token < active then
      (some (.answered (.error
        (s!"[RS-3004] stale lease token {token} < active worker lease {active}. " ++
          "Next steps: refresh worker shard lease from control plane."))), shard)
    else match failure with
      | some message =>
        (some (.answered (.error s!"Failed to read committed frontier: {message}")), shard)
      | none =>
        if frontier < shard.lastEpoch then (none, shard)
        else if epoch < frontier then
          (some (.answered (.error
            (s!"[RS-3011] out-of-order epoch {epoch} < committed frontier {frontier}. " ++
              "Next steps: submit frames in monotonic epoch order."))),
            { shard with lastEpoch := frontier })
        else (some .ordered, { shard with lastEpoch := frontier })
  | .ordered =>
    let epoch := request.identity.epoch
    let requestId := request.identity.requestId
    match failure, shard.lookup request.identity with
    | some message, _ =>
      (some (.answered (.error s!"Failed to read request identity: {message}")), shard)
    | none, none => (some .fresh, shard)
    | none, some existing =>
      if existing.payloadDigest = request.payloadDigest then
        (some (.answered (.ok (.replayed existing))), shard)
      else
        (some (.answered (.error
          (s!"[RS-3008] conflicting payload digest for request_id {requestId} in epoch {epoch}. " ++
            "Next steps: ensure idempotent retry uses identical payload, or " ++
            "generate fresh request ID."))), shard)
  | .fresh =>
    match failure with
    | some message => (some (.answered (.error message)), shard)
    | none => (if request.identity.epoch < shard.lastEpoch then none else some .checked, shard)
  | .checked =>
    match failure with
    | some message =>
      (some (.answered (.error s!"Failed to commit request identity batch: {message}")), shard)
    | none => (some (.written (shard.written.length + 1)),
        { shard with written := request :: shard.written })
  | .written position =>
    match failure with
    | some message =>
      (some (.answered (.error s!"Failed to commit request identity batch: {message}")), shard)
    | none => (some (.answered (.ok (.committed request.outcome))),
        { shard with
          durable := max shard.durable position
          lastEpoch := max shard.lastEpoch request.identity.epoch })
  | .answered answer => (some (.answered answer), shard)

structure RequestWorld where
  shard : RequestShard
  calls : Nat → Option (DurableRequest × RequestPhase)

/-- A call begins, goes on, or is cancelled; a crash ends all calls, and the shard is opened again
with its oldest batches. -/
inductive RequestStep where
  | submit (call : Nat) (request : DurableRequest)
  | next (call : Nat) (failure : Option String)
  | cancel (call : Nat)
  | crash (kept : Nat)
deriving DecidableEq

namespace RequestWorld

/-- One step. A step that cannot happen changes nothing. -/
def step (world : RequestWorld) : RequestStep → RequestWorld
  | .submit call request =>
    if (world.calls call).isSome then world
    else { world with calls := Function.update world.calls call (some (request, .submitted)) }
  | .next call failure =>
    match world.calls call with
    | none => world
    | some (request, phase) =>
      let (phase, shard) := world.shard.advance request failure phase
      ⟨shard, Function.update world.calls call (phase.map fun phase => (request, phase))⟩
  | .cancel call => { world with calls := Function.update world.calls call none }
  | .crash kept =>
    if kept < world.shard.durable then world
    else
      let shard := { world.shard with
        written := world.shard.written.drop (world.shard.written.length - kept) }
      ⟨{ shard with lastEpoch := shard.frontier }, fun _ => none⟩

/-- A shard without requests. -/
def start : RequestWorld := ⟨⟨[], 0, 0⟩, fun _ => none⟩

def run (steps : List RequestStep) : RequestWorld := steps.foldl step start

/-- A call that has read the frontier and has not written. -/
def Between (world : RequestWorld) (call : Nat) : Prop :=
  ∃ request phase, world.calls call = some (request, phase) ∧
    (phase = .ordered ∨ phase = .fresh ∨ phase = .checked)

/-- The step is not the write of one call while another one is between its read of the frontier and
its write, and no crash that loses a batch. -/
def Alone (world : RequestWorld) : RequestStep → Prop
  | .next call none => ∀ request, world.calls call = some (request, .checked) →
    ∀ other, other ≠ call → ¬ world.Between other
  | .crash kept => world.shard.written.length ≤ kept
  | _ => True

end RequestWorld

/-! ## Exclusive writes -/

/-- What a call has learnt is still so. -/
def RequestShard.Knows (shard : RequestShard) (request : DurableRequest) : RequestPhase → Prop
  | .ordered => shard.frontier ≤ request.identity.epoch
  | .fresh | .checked => shard.frontier ≤ request.identity.epoch ∧
      shard.lookup request.identity = none
  | .written _ => request.identity.epoch ≤ shard.frontier
  | .submitted | .answered _ => True

structure RequestShard.Sound (shard : RequestShard) : Prop where
  seen : shard.lastEpoch ≤ shard.frontier
  once : shard.commits.Nodup

/-- What one part of a call leaves: the records are kept, and nothing is written unless it is the
write of the batch. -/
structure RequestShard.Advanced (shard : RequestShard) (request : DurableRequest)
    (failure : Option String) (phase : RequestPhase)
    (result : Option RequestPhase × RequestShard) : Prop where
  sound : result.2.Sound
  knows : ∀ next, result.1 = some next → result.2.Knows request next
  grows : shard.frontier ≤ result.2.frontier
  keeps : ∀ identity stored, shard.lookup identity = some stored →
    result.2.lookup identity = some stored
  writes : result.2.written = shard.written ∨ phase = .checked ∧ failure = none

theorem RequestShard.lookup_write (shard : RequestShard) (request : DurableRequest)
    (identity : RequestIdentity) :
    lookup { shard with written := request :: shard.written } identity =
      if request.identity = identity then some request.outcome else shard.lookup identity := by
  simp only [lookup, find?_cons]
  split <;> simp_all

theorem RequestShard.not_mem_commits {shard : RequestShard} {identity : RequestIdentity}
    (absent : shard.lookup identity = none) : identity ∉ shard.commits := by
  simpa [lookup, commits] using absent

theorem RequestShard.Knows.congr {shard next : RequestShard} (knows : shard.Knows request phase)
    (same : next.written = shard.written) : next.Knows request phase := by
  unfold Knows frontier lookup at *
  rwa [same]

theorem RequestShard.Sound.advance {shard : RequestShard} (sound : shard.Sound)
    (knows : shard.Knows request phase) (failure : Option String) :
    shard.Advanced request failure phase (shard.advance request failure phase) := by
  -- Every part but the write of the batch leaves the batches as they are.
  have reads : ∀ (next : Option RequestPhase) (durable last : Nat), last ≤ shard.frontier →
      (∀ reached, next = some reached → shard.Knows request reached) →
      shard.Advanced request failure phase (next, ⟨shard.written, durable, last⟩) :=
    fun next durable last bounded learnt => ⟨⟨bounded, sound.once⟩,
      fun reached isNext => (learnt reached isNext).congr rfl, le_rfl,
        fun _ _ found => found, .inl rfl⟩
  have answers : ∀ answer, shard.Advanced request failure phase (some (.answered answer), shard) :=
    fun answer => reads _ _ _ sound.seen (by simp [Knows])
  have dies : shard.Advanced request failure phase (none, shard) :=
    reads _ _ _ sound.seen (by simp)
  cases phase with
  | submitted =>
    simp only [advance]
    split
    · exact answers _
    · cases failure with
      | some message => exact answers _
      | none =>
        dsimp only
        split
        · exact dies
        · split
          · exact reads _ _ _ le_rfl (by simp [Knows])
          · next inOrder => exact reads _ _ _ le_rfl (by simpa [Knows] using inOrder)
  | ordered =>
    simp only [advance]
    split
    · exact answers _
    · next absent => exact reads _ _ _ sound.seen (by simpa [Knows, absent] using knows)
    · split <;> exact answers _
  | fresh =>
    cases failure with
    | some message => exact answers _
    | none =>
      simp only [advance]
      split
      · exact dies
      · exact reads _ _ _ sound.seen (by simpa [Knows] using knows)
  | checked =>
    cases failure with
    | some message => exact answers _
    | none =>
      obtain ⟨inOrder, absent⟩ := knows
      refine ⟨⟨sound.seen.trans inOrder, nodup_cons.mpr ⟨not_mem_commits absent, sound.once⟩⟩,
        by simp [advance, Knows, frontier], inOrder, fun identity stored found => ?_,
          .inr ⟨rfl, rfl⟩⟩
      have other : request.identity ≠ identity := by
        rintro rfl
        rw [absent] at found
        cases found
      simpa [advance, lookup_write, other] using found
  | written position =>
    cases failure with
    | some message => exact answers _
    | none => exact reads _ _ _ (max_le sound.seen knows) (by simp [Knows])
  | answered answer => exact answers answer

/-- What a call knows depends on the batches only; once its own is written, on the frontier
alone. -/
theorem RequestShard.Knows.keep {shard next : RequestShard} (knows : shard.Knows request phase)
    (grows : shard.frontier ≤ next.frontier)
    (kept : next.written = shard.written ∨
      ¬ (phase = .ordered ∨ phase = .fresh ∨ phase = .checked)) : next.Knows request phase := by
  rcases kept with same | outside
  · exact knows.congr same
  · cases phase with
    | written => exact knows.trans grows
    | submitted | answered => trivial
    | ordered | fresh | checked => simp at outside

namespace RequestWorld

structure Sound (world : RequestWorld) : Prop where
  shard : world.shard.Sound
  knows : ∀ call request phase, world.calls call = some (request, phase) →
    world.shard.Knows request phase

/-- What a step preserves. -/
structure Follows (world next : RequestWorld) : Prop where
  sound : next.Sound
  grows : world.shard.frontier ≤ next.shard.frontier
  keeps : ∀ identity stored, world.shard.lookup identity = some stored →
    next.shard.lookup identity = some stored

theorem Sound.step (sound : world.Sound)
    (alone : world.Alone taken) : world.Follows (world.step taken) := by
  have stays : world.Follows world := ⟨sound, le_rfl, fun _ _ found => found⟩
  cases taken with
  | submit call request =>
    simp only [RequestWorld.step]
    split
    · exact stays
    · refine ⟨⟨sound.shard, fun other request' phase called => ?_⟩, le_rfl, stays.keeps⟩
      by_cases same : other = call
      · subst same
        simp only [update_self, Option.some.injEq, Prod.mk.injEq] at called
        obtain ⟨rfl, rfl⟩ := called
        trivial
      · simp only [update_of_ne same] at called
        exact sound.knows other request' phase called
  | next call failure =>
    simp only [RequestWorld.step]
    split
    · exact stays
    · next request phase called =>
      have advanced := sound.shard.advance (sound.knows call request phase called) failure
      refine ⟨⟨advanced.sound, fun other request' phase' calledNext => ?_⟩, advanced.grows,
        advanced.keeps⟩
      by_cases same : other = call
      · subst same
        simp only [update_self, Option.map_eq_some_iff, Prod.mk.injEq] at calledNext
        obtain ⟨reached, isNext, rfl, rfl⟩ := calledNext
        exact advanced.knows reached isNext
      · simp only [update_of_ne same] at calledNext
        apply (sound.knows other request' phase' calledNext).keep advanced.grows
        rcases advanced.writes with unchanged | ⟨rfl, rfl⟩
        · exact .inl unchanged
        · exact .inr fun between =>
            alone request called other same ⟨request', phase', calledNext, between⟩
  | cancel call =>
    refine ⟨⟨sound.shard, fun other request phase called => ?_⟩, le_rfl, stays.keeps⟩
    by_cases same : other = call
    · simp [RequestWorld.step, same] at called
    · simp only [RequestWorld.step, update_of_ne same] at called
      exact sound.knows other request phase called
  | crash kept =>
    simp only [RequestWorld.step]
    split
    · exact stays
    · have all : world.shard.written.length ≤ kept := alone
      rw [Nat.sub_eq_zero_of_le all, drop_zero]
      exact ⟨⟨⟨le_rfl, sound.shard.once⟩, nofun⟩, le_rfl, stays.keeps⟩

theorem Sound.run (sound : world.Sound) (alone : Throughout RequestWorld.step Alone world steps) :
    world.Follows (steps.foldl RequestWorld.step world) := by
  refine alone.invariant world.Follows ⟨sound, le_rfl, fun _ _ found => found⟩ ?_
  intro current taken follows isAlone
  have next := follows.sound.step isAlone
  exact ⟨next.sound, follows.grows.trans next.grows,
    fun identity stored found => next.keeps _ _ (follows.keeps _ _ found)⟩

theorem sound_start : start.Sound := ⟨⟨le_rfl, nodup_nil⟩, by simp [start]⟩

/-! ## Replays -/

/-- Where the call of a recorded identity is after some of its parts. -/
def replayPhase (stored : DurableExecutionOutcome) : Nat → RequestPhase
  | 0 => .submitted
  | 1 => .ordered
  | _ + 2 => .answered (.ok (.replayed stored))

/-- The steps that leave a call to its parts: none of its reads fails, and it is not cancelled. -/
def Undisturbed (call : Nat) (steps : List RequestStep) : Prop :=
  ∀ taken ∈ steps, (∀ kept, taken ≠ .crash kept) ∧ taken ≠ .cancel call ∧
    ∀ message, taken ≠ .next call (some message)

section Replay

variable {call : Nat} {stored : DurableExecutionOutcome} {parts : Nat}

theorem advance_replayPhase (sound : world.shard.Sound)
    (recorded : world.shard.lookup request.identity = some stored)
    (samePayload : stored.payloadDigest = request.payloadDigest)
    (leased : request.activeLease ≤ request.leaseToken)
    (inOrder : world.shard.frontier ≤ request.identity.epoch) :
    (world.shard.advance request none (replayPhase stored parts)).1 =
      some (replayPhase stored (parts + 1)) := by
  have notStale := Nat.not_lt.mpr leased
  have notLost := Nat.not_lt.mpr sound.seen
  have notPast := Nat.not_lt.mpr inOrder
  match parts with
  | 0 => simp [replayPhase, advance, notStale, notLost, notPast]
  | 1 => simp [replayPhase, advance, recorded, samePayload]
  | _ + 2 => rfl

theorem calls_step (called : world.calls call = some (request, replayPhase stored parts))
    (undisturbed : (∀ kept, taken ≠ .crash kept) ∧ taken ≠ .cancel call ∧
      ∀ message, taken ≠ .next call (some message))
    (advances : (world.shard.advance request none (replayPhase stored parts)).1 =
      some (replayPhase stored (parts + 1))) : (world.step taken).calls call =
      some (request, replayPhase stored (parts + [taken].count (.next call none))) := by
  obtain ⟨noCrash, notCancelled, noFailure⟩ := undisturbed
  cases taken with
  | crash kept => exact absurd rfl (noCrash kept)
  | submit other request' =>
    have counted : [RequestStep.submit other request'].count (.next call none) = 0 := by simp
    rw [counted, RequestWorld.step]
    split
    · exact called
    · next free =>
      have ne : call ≠ other := by
        rintro rfl
        simp [called] at free
      simpa [update_of_ne ne] using called
  | cancel other =>
    have ne : call ≠ other := by
      rintro rfl
      exact notCancelled rfl
    simpa [RequestWorld.step, update_of_ne ne] using called
  | next other failure =>
    by_cases same : other = call
    · subst same
      cases failure with
      | some message => exact absurd rfl (noFailure message)
      | none => simp [RequestWorld.step, called, advances]
    · have counted : [RequestStep.next other failure].count (.next call none) = 0 := by simp [same]
      rw [counted, RequestWorld.step]
      split
      · exact called
      · simpa [update_of_ne (Ne.symm same)] using called

theorem calls_run (sound : world.Sound)
    (recorded : world.shard.lookup request.identity = some stored)
    (samePayload : stored.payloadDigest = request.payloadDigest)
    (leased : request.activeLease ≤ request.leaseToken)
    (called : world.calls call = some (request, replayPhase stored parts))
    (exclusive : Throughout step Alone world steps) (undisturbed : Undisturbed call steps)
    (inOrder : (steps.foldl step world).shard.frontier ≤ request.identity.epoch) :
    (steps.foldl step world).calls call =
      some (request, replayPhase stored (parts + steps.count (.next call none))) := by
  induction steps generalizing world parts with
  | nil => exact called
  | cons taken rest ih =>
    have first := sound.step exclusive.1
    have before := (sound.run exclusive).grows.trans inOrder
    have after := calls_step called (undisturbed taken mem_cons_self)
      (advance_replayPhase sound.shard recorded samePayload leased before)
    have whole := ih first.sound (first.keeps _ _ recorded) after exclusive.2
      (fun other mem => undisturbed other (mem_cons_of_mem _ mem)) inOrder
    rw [← singleton_append, count_append, ← Nat.add_assoc]
    exact whole

end Replay

/-- In a run in which no call writes while another one is between its read of the frontier and its
write, and no crash loses a batch, the frontier never moves back, every identity is committed at
most once, and a committed identity that is submitted again with its payload under a current lease
is answered with the stored outcome, if the frontier is not past its epoch. -/
theorem exclusive_requests (steps : List RequestStep)
    (exclusive : Throughout step Alone start steps) :
    (∀ earlier later, steps = earlier ++ later →
      (run earlier).shard.frontier ≤ (run steps).shard.frontier) ∧ (run steps).shard.commits.Nodup ∧
    ∀ earlier call request later stored, steps = earlier ++ .submit call request :: later →
      (run earlier).calls call = none →
      (run earlier).shard.lookup request.identity = some stored →
      stored.payloadDigest = request.payloadDigest → request.activeLease ≤ request.leaseToken →
      Undisturbed call later → 2 ≤ later.count (.next call none) →
      (run steps).shard.frontier ≤ request.identity.epoch →
      (run steps).calls call = some (request, .answered (.ok (.replayed stored))) := by
  refine ⟨fun earlier later whole => ?_, (sound_start.run exclusive).sound.shard.once,
    fun earlier call request later stored whole free recorded samePayload leased undisturbed enough
      inOrder => ?_⟩
  · subst whole
    obtain ⟨first, rest⟩ := throughout_append.mp exclusive
    simp only [RequestWorld.run, foldl_append]
    exact ((sound_start.run first).sound.run rest).grows
  · subst whole
    obtain ⟨first, alone, rest⟩ := throughout_append.mp exclusive
    have before := (sound_start.run first).sound
    have submitted : ((run earlier).step (.submit call request)).calls call =
        some (request, replayPhase stored 0) := by simp [step, free, replayPhase]
    have after := before.step alone
    simp only [RequestWorld.run, foldl_append, foldl_cons] at inOrder ⊢
    rw [calls_run after.sound (after.keeps _ _ recorded) samePayload leased submitted rest
      undisturbed inOrder, Nat.zero_add]
    obtain ⟨parts, counted⟩ := Nat.exists_eq_add_of_le' enough
    rw [counted]
    rfl

/-- The steps of one call are exclusive while no other call is between its read and its write. -/
theorem exclusive_of_idle (call : Nat) (request : DurableRequest)
    (idle : ∀ other, other ≠ call → ¬ world.Between other) (only : ∀ taken ∈ steps,
      taken = .submit call request ∨ taken = .next call none ∨ taken = .cancel call) :
    Throughout step Alone world steps := by
  induction steps generalizing world with
  | nil => trivial
  | cons taken rest ih =>
    have here : world.Alone taken ∧
        ∀ other, other ≠ call → (world.step taken).calls other = world.calls other := by
      rcases only taken mem_cons_self with rfl | rfl | rfl
      · refine ⟨trivial, fun other ne => ?_⟩
        simp only [step]
        split <;> simp [ne]
      · refine ⟨fun _ _ => idle, fun other ne => ?_⟩
        simp only [step]
        split <;> simp [ne]
      · exact ⟨trivial, fun other ne => by simp [step, ne]⟩
    refine ⟨here.1, ih (fun other ne => ?_) fun later mem => only later (by simp [mem])⟩
    rw [Between, here.2 other ne]
    exact idle other ne

/-- A request of the empty payload in an epoch. -/
def requestIn (epoch : Nat) : DurableRequest := ⟨⟨1, 0, 0, epoch, 7⟩, [], 0, 0⟩

def callIn (call epoch parts : Nat) : List RequestStep :=
  .submit call (requestIn epoch) :: replicate parts (.next call none)

/-- A request, a crash after its answer, and the request again. -/
theorem exclusive_requests_serial :
    let first := callIn 0 1 5 ++ [.crash 1]
    (run (first ++ callIn 0 1 2)).shard.commits.Nodup ∧ (run (first ++ callIn 0 1 2)).calls 0 =
      some (requestIn 1, .answered (.ok (.replayed (requestIn 1).outcome))) := by
  have alone : Throughout step Alone start (callIn 0 1 5 ++ [.crash 1] ++ callIn 0 1 2) := by
    refine throughout_append.mpr ⟨throughout_append.mpr ⟨?_, Nat.le_refl 1, trivial⟩, ?_⟩
    · exact exclusive_of_idle 0 (requestIn 1) (by simp [Between, start]) (by simp [callIn])
    · exact exclusive_of_idle 0 (requestIn 1) (by rintro _ _ ⟨_, _, called, _⟩; cases called)
        (by simp [callIn])
  have kept := exclusive_requests _ alone
  exact ⟨kept.2.1, kept.2.2 (callIn 0 1 5 ++ [.crash 1]) 0 (requestIn 1)
    (replicate 2 (.next 0 none)) _ rfl rfl rfl rfl (Nat.le_refl 0) (by simp [Undisturbed])
    (by decide) (by decide)⟩

/-- Two calls that both pass the checks before either writes: the frontier moves back, or one
identity is committed twice. A crash before the batch of a call is durable moves the frontier back.
And the retry of a committed request comes too late once the frontier has moved. -/
theorem overlapping_requests :
    let overlap := fun epoch => callIn 0 2 3 ++ callIn 1 epoch 3 ++ [.next 0 none]
    (run (overlap 1)).shard.frontier = 2 ∧ (run (overlap 1 ++ [.next 1 none])).shard.frontier = 1 ∧
      (run (overlap 2 ++ [.next 1 none])).shard.commits =
        [(requestIn 2).identity, (requestIn 2).identity] ∧
      (run (callIn 0 1 4)).shard.frontier = 1 ∧
        (run (callIn 0 1 4 ++ [.crash 0])).shard.frontier = 0 ∧
      (run (callIn 0 1 5 ++ callIn 1 2 5)).shard.lookup (requestIn 1).identity =
        some (requestIn 1).outcome ∧
      (run (callIn 0 1 5 ++ callIn 1 2 5 ++ callIn 2 1 1)).calls 2 =
        some (requestIn 1, .answered (.error
        ("[RS-3011] out-of-order epoch 1 < committed frontier 2. " ++
          "Next steps: submit frames in monotonic epoch order."))) := by
  refine ⟨rfl, rfl, rfl, rfl, rfl, rfl, rfl⟩

end RequestWorld

end RockStream
