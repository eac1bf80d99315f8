import RockStream.ShardDb
import RockStream.Lib.SortedMap

/-!
Contract: the physical group commit of a shard (`PhysicalCommitGroup` of
`rockstream-ops/src/group_commit/physical.rs`, with the transitions of
`rockstream-verified/src/physical_commit.rs`).

Callers stage the batches of their epochs. One driver takes all pending epochs, writes them as
one batch with the frontier, and flushes the store. A flight whose write failed goes back to
the pending epochs. A flight whose write or flush has an unknown outcome becomes uncertain:
only its flush is tried again.

Owns:
- `beginOwner` and `finishTransition`, the decisions of the verified core;
- `CommitGroup.stage`, `drive`, the attempts of `persist`, and `finish`, which is also what
  dropping a flight does;
- `CommitGroup.step`, with one step for every part that callers, storage or a cancelled driver
  can come between, and the history of what happened.

Does not own: the number of calls that may wait at once, the clock, which only says when
pending epochs are due, and what a write that timed out does after the driver gave it up: it has
arrived by then or never does.
-/

namespace RockStream

open Lib

abbrev Batch := List StateMutation

/-! ## Transitions -/

/-- `FLIGHT_PENDING` and `FLIGHT_UNCERTAIN`. -/
inductive FlightSource where
  | pending
  | uncertain
deriving DecidableEq

/-- `DURABLE`, `WRITE_FAILED` and `OUTCOME_UNKNOWN`. -/
inductive FlightResult where
  | durable
  | writeFailed
  | outcomeUnknown
deriving DecidableEq

/-- `PENDING`, `UNCERTAIN` and `COMMITTED`: who has the epochs after a flight. -/
inductive EntryOwner where
  | pending
  | uncertain
  | committed
deriving DecidableEq

def beginOwner (hasPending hasUncertain outcomeUnknown : Bool) : Option FlightSource :=
  if outcomeUnknown || (!hasPending && !hasUncertain) then none
  else if hasUncertain then some .uncertain
  else some .pending

/-- What the epochs that a group holds take of its capacity. -/
@[ext] structure Retained where
  epochs : Nat
  bytes : Nat
  operations : Nat

namespace Retained

def byteSize (batch : Batch) : Nat := (batch.map StateMutation.sizeBytes).sum

def of (entries : List (Nat × Batch)) : Retained where
  epochs := entries.length
  bytes := (entries.map fun entry => byteSize entry.2).sum
  operations := (entries.map fun entry => entry.2.length).sum

def sub (retained other : Retained) : Retained :=
  ⟨retained.epochs - other.epochs, retained.bytes - other.bytes,
    retained.operations - other.operations⟩

end Retained

structure FlightTransition where
  owner : EntryOwner
  retained : Retained
  frontier : Option Nat
  ack : Bool

def finishTransition (source : FlightSource) (result : FlightResult) (retained flight : Retained)
    (currentFrontier : Option Nat) (flightLast : Nat) : Option FlightTransition :=
  if (source = .uncertain ∧ result = .writeFailed) ∨ flight.epochs = 0 ∨
      retained.epochs < flight.epochs ∨ retained.bytes < flight.bytes ∨
      retained.operations < flight.operations then none
  else match result with
    | .durable =>
      if currentFrontier.any (flightLast < ·) then none
      else some ⟨.committed, retained.sub flight, some flightLast, true⟩
    | .writeFailed => some ⟨.pending, retained, currentFrontier, false⟩
    | .outcomeUnknown => some ⟨.uncertain, retained, currentFrontier, false⟩

/-! ## The group -/

def MAX_GROUP_COMMIT_OPERATIONS : Nat := 131072

def MAX_GROUP_COMMIT_RETRY_COUNT : Nat := 3

inductive FlightOutcome where
  | durable
  | writeFailed (error : String)
  | flushUnknown (error : String)
  | writeUnknown (error : String)

def FlightOutcome.result : FlightOutcome → FlightResult
  | .durable => .durable
  | .writeFailed _ => .writeFailed
  | .flushUnknown _ => .outcomeUnknown
  | .writeUnknown _ => .outcomeUnknown

/-- What the callers of a flight with these epochs are told. -/
def FlightOutcome.reply (epochs : List Nat) : FlightOutcome → Except String (List Nat)
  | .durable => .ok epochs
  | .writeFailed error => .error error
  | .flushUnknown error => .error error
  | .writeUnknown error => .error error

/-- Where `persist` is, with the attempts so far. -/
inductive FlightStage where
  | writing (attempts : Nat)
  | flushing (attempts : Nat)
  | done (outcome : FlightOutcome)

structure Flight where
  entries : SortedMap Batch
  /-- The flush requests that wait for this flight. -/
  requests : List Nat
  source : FlightSource
  stage : FlightStage

inductive DriverTask where
  | idle
  | flying (flight : Flight)
  /-- An `expect` of `finish` failed. -/
  | panicked

/-- `State`. An entry is the batch of its epoch. -/
structure CommitGroupState where
  pending : SortedMap Batch
  uncertain : SortedMap Batch
  requests : List Nat
  nextRequest : Nat
  retained : Retained
  lastCommitted : Option Nat
  sealedEpoch : Option Nat
  forceFlush : Bool
  retryRequired : Bool
  writeOutcomeUnknown : Bool
  closing : Bool

inductive GroupEvent where
  /-- `stage` took an epoch in. -/
  | accepted (epoch : Nat) (batch : Batch)
  /-- A write of these epochs succeeded. -/
  | wrote (entries : List (Nat × Batch))
  /-- A write of unknown outcome has reached the store. -/
  | arrived (entries : List (Nat × Batch))
  /-- A flush of the store succeeded. -/
  | flushed
  /-- `commit_epoch` of an accepted epoch returned. -/
  | answered (epoch : Nat) (reply : Except String Unit)
  /-- `flush` returned. -/
  | flushAnswered (request : Nat) (reply : Except String (List Nat))
  /-- Another part of the worker wrote to the shard. -/
  | stored (batch : Batch)

structure CommitGroup where
  db : ShardDb
  maxBytes : Nat
  maxEpochs : Nat
  state : CommitGroupState
  driver : DriverTask
  /-- The epochs whose `commit_epoch` waits for its answer. -/
  waiters : List Nat
  history : List GroupEvent

/-- The outcome of one `write_batch`. An error is taken as not applied. -/
inductive WriteOutcome where
  | ok
  | failed (error : String)
  | timedOut (applied : Bool)

/-- What callers, the driver and storage do next. -/
inductive GroupStep where
  /-- `add_epoch`, or `commit_epoch`, which waits for its answer. -/
  | stage (epoch : UInt64) (batch : Batch) (waits : Bool)
  /-- A waiting `commit_epoch` is cancelled. -/
  | cancelWaiter (epoch : Nat)
  | flush
  | cancelFlush (request : Nat)
  /-- `shutdown` stops admission; the flushes it makes are steps of their own. -/
  | close
  /-- The driver looks at the state; some pending epochs may be due. -/
  | drive (due : Bool)
  | write (outcome : WriteOutcome)
  | flushStore (failure : Option String)
  | finish
  /-- The driver is cancelled or unwinds in the middle of storage I/O. -/
  | stop (applied : Bool)
  /-- Another writer of the shard. -/
  | other (batch : Batch)

namespace CommitGroup

variable (group : CommitGroup)

def start (db : ShardDb) (maxBytes maxEpochs : Nat) (frontier : Option Nat) : CommitGroup where
  db := db
  maxBytes := maxBytes
  maxEpochs := maxEpochs
  state := {
    pending := .empty
    uncertain := .empty
    requests := []
    nextRequest := 0
    retained := .of []
    lastCommitted := frontier
    sealedEpoch := frontier
    forceFlush := false
    retryRequired := false
    writeOutcomeUnknown := false
    closing := false }
  driver := .idle
  waiters := []
  history := []

def record (events : List GroupEvent) : CommitGroup :=
  { group with history := group.history ++ events }

def capacity (resource : String) (current limit : Nat) : OpError :=
  .capacityExceeded resource current limit
    "apply backpressure, reduce the complete epoch, or recover the failed physical commit"

def debugEpoch : Option Nat → String
  | none => "None"
  | some epoch => s!"Some({epoch})"

/-- The checks of `stage`. -/
def checkAdmission (epoch : Nat) (batch : Batch) : Except OpError Unit :=
  let state := group.state
  let proposed := state.retained.bytes + Retained.byteSize batch
  let proposedOperations := state.retained.operations + batch.length
  if state.closing || state.retryRequired then
    .error (.internal ("physical commit admission is stopped; " ++
      "flush recovery or reopen the shard before adding another epoch"))
  else if state.sealedEpoch.any (epoch ≤ ·) || state.pending.entries.any (·.1 == epoch) then
    .error (.internal (s!"logical epoch {epoch} is not newer than the sealed physical frontier " ++
      debugEpoch state.sealedEpoch))
  else if 2 ^ 64 ≤ proposed then
    .error (capacity "physical_commit_bytes" (2 ^ 64 - 1) group.maxBytes)
  else if group.maxBytes < proposed then
    .error (capacity "physical_commit_bytes" proposed group.maxBytes)
  else if group.maxEpochs ≤ state.retained.epochs then
    .error (capacity "physical_commit_epochs" state.retained.epochs group.maxEpochs)
  else if 2 ^ 64 ≤ proposedOperations then
    .error (capacity "physical_commit_operations" (2 ^ 64 - 1) MAX_GROUP_COMMIT_OPERATIONS)
  else if MAX_GROUP_COMMIT_OPERATIONS < proposedOperations then
    .error (capacity "physical_commit_operations" proposedOperations MAX_GROUP_COMMIT_OPERATIONS)
  else .ok ()

/-- What `stage` changes when it takes an epoch in. -/
def enqueue (epoch : Nat) (batch : Batch) : CommitGroupState :=
  let state := group.state
  let retained : Retained := ⟨state.retained.epochs + 1,
    state.retained.bytes + Retained.byteSize batch, state.retained.operations + batch.length⟩
  { state with
    pending := state.pending.insert epoch batch
    retained := retained
    forceFlush := state.forceFlush || (retained.bytes == group.maxBytes ||
      retained.epochs == group.maxEpochs) }

def stage (epoch : Nat) (batch : Batch) (waits : Bool) : Except OpError CommitGroup := do
  group.checkAdmission epoch batch
  pure ({ group with
    state := group.enqueue epoch batch
    waiters := if waits then epoch :: group.waiters else group.waiters }.record
      [.accepted epoch batch])

/-- Registration of a `flush`. -/
def flush : Except OpError CommitGroup :=
  if group.state.nextRequest + 1 < 2 ^ 64 then
    .ok { group with state := { group.state with
      nextRequest := group.state.nextRequest + 1
      requests := group.state.requests ++ [group.state.nextRequest] } }
  else .error (.internal "physical commit request sequence exhausted; reopen the owner")

def answerRequests (reply : Except String (List Nat)) : CommitGroup :=
  { group with state := { group.state with requests := [] } }.record
    (group.state.requests.map fun request => .flushAnswered request reply)

def depart (source : FlightSource) : CommitGroup :=
  let entries := match source with
    | .pending => group.state.pending
    | .uncertain => group.state.uncertain
  let stage := match source with
    | .pending => .writing 0
    | .uncertain => .flushing 0
  { group with
    state := { group.state with
      pending := match source with
        | .pending => .empty
        | .uncertain => group.state.pending
      uncertain := match source with
        | .pending => group.state.uncertain
        | .uncertain => .empty
      sealedEpoch := entries.lastKey.or group.state.sealedEpoch
      forceFlush := false }
    driver := .flying ⟨entries, group.state.requests, source, stage⟩ }

/-- One round of `drive` that finds requests while the outcome of a write is unknown. -/
def refuseUnknown : CommitGroup :=
  if group.state.writeOutcomeUnknown then
    group.answerRequests (.error
      ("physical write outcome is unknown; " ++
        "reopen and reconcile instead of replaying or acknowledging it"))
  else group

/-- One round of `drive`. -/
def drive (due : Bool) : CommitGroup :=
  let group := group.refuseUnknown
  let state := group.state
  let hasPending := !state.pending.entries.isEmpty
  let hasUncertain := !state.uncertain.entries.isEmpty
  let requested := !state.requests.isEmpty
  let ready := requested || (!state.retryRequired && ((due && hasPending) || state.forceFlush))
  if ready && (hasPending || hasUncertain) && !state.writeOutcomeUnknown then
    match beginOwner hasPending hasUncertain state.writeOutcomeUnknown with
    | some source => group.depart source
    | none => { group with driver := .panicked }
  else if requested && !hasPending && !hasUncertain then group.answerRequests (.ok [])
  else group

/-- The batch of a flight: its entries in the order of their epochs, then the frontier. -/
def mergedBatch (entries : List (Nat × Batch)) : Batch :=
  entries.flatMap Prod.snd ++ entries.getLast?.toList.map fun last =>
    .put ShardKeyEncoder.frontierKey (Bytes.beBytes 8 last.1)

def continueAt (flight : Flight) (stage : FlightStage) : CommitGroup :=
  { group with driver := .flying { flight with stage := stage } }

def settle (flight : Flight) (outcome : FlightOutcome) : CommitGroup :=
  let epochs := flight.entries.entries.map Prod.fst
  let reply := outcome.reply epochs
  { group with
    state := { group.state with
      requests := group.state.requests.filter (· ∉ flight.requests) }
    waiters := group.waiters.filter (· ∉ epochs) }.record
    (((epochs.filter (· ∈ group.waiters)).map fun epoch =>
        GroupEvent.answered epoch (reply.map fun _ => ())) ++
      (flight.requests.filter (· ∈ group.state.requests)).map fun request =>
        GroupEvent.flushAnswered request reply)

/-- What `finish` does to the state. `finish_transition` has checked that the frontier does not go
back, as `finish` asserts again. -/
def afterFlight (state : CommitGroupState) (flight : Flight) (outcome : FlightOutcome)
    (next : FlightTransition) : CommitGroupState :=
  { state with
    retained := next.retained
    lastCommitted := next.frontier
    retryRequired := !next.ack
    writeOutcomeUnknown := match outcome with
      | .writeUnknown _ => true
      | _ => false
    pending := match next.owner with
      | .pending => state.pending.append flight.entries
      | _ => state.pending
    uncertain := match next.owner with
      | .uncertain => state.uncertain.append flight.entries
      | _ => state.uncertain }

def finish (flight : Flight) (outcome : FlightOutcome) : CommitGroup :=
  match flight.entries.lastKey with
  | none => { group with driver := .panicked }
  | some last =>
    match finishTransition flight.source outcome.result group.state.retained
        (.of flight.entries.entries) group.state.lastCommitted last with
    | none => { group with driver := .panicked }
    | some next =>
      { group with state := afterFlight group.state flight outcome next, driver := .idle }.settle
        flight outcome

/-- `Flight::drop` while `persist` runs. -/
def dropFlight (flight : Flight) : CommitGroup :=
  group.finish flight (.writeUnknown
    ("physical commit driver stopped during storage I/O; " ++
      "reopen the shard and reconcile the durable frontier"))

/-- A write whose outcome the driver does not learn. -/
def land (flight : Flight) (applied : Bool) : CommitGroup :=
  match applied, group.db.writeBatch (mergedBatch flight.entries.entries) with
  | true, .ok db => { group with db := db }.record [.arrived flight.entries.entries]
  | _, _ => group

/-- One attempt of `persist` to write. -/
def write (flight : Flight) (attempts : Nat) : WriteOutcome → CommitGroup
  | .ok =>
    match group.db.writeBatch (mergedBatch flight.entries.entries) with
    | .ok db => ({ group with db := db }.record [.wrote flight.entries.entries]).continueAt flight
        (.flushing 0)
    -- The assertion of the shard unwinds the driver before anything is written.
    | .error _ => group.dropFlight flight
  | .failed error => group.continueAt flight
      (if attempts + 1 = MAX_GROUP_COMMIT_RETRY_COUNT then .done (.writeFailed error)
      else .writing (attempts + 1))
  | .timedOut applied => (group.land flight applied).continueAt flight (.done (.writeUnknown
      ("physical write timed out; " ++
        "its outcome is unknown and must be reconciled after reopening the shard")))

def flushStore (flight : Flight) (attempts : Nat) :
    Option String → CommitGroup
  | none => (group.record [.flushed]).continueAt flight (.done .durable)
  | some error => group.continueAt flight
      (if attempts + 1 = MAX_GROUP_COMMIT_RETRY_COUNT then .done (.flushUnknown error)
      else .flushing (attempts + 1))

/-- One step. A step that cannot happen changes nothing. -/
def step : GroupStep → CommitGroup
  | .stage epoch batch waits =>
    match group.stage epoch.toNat batch waits with
    | .ok next => next
    | .error _ => group
  | .cancelWaiter epoch => { group with waiters := group.waiters.filter (· ≠ epoch) }
  | .flush =>
    match group.flush with
    | .ok next => next
    | .error _ => group
  | .cancelFlush request => { group with state := { group.state with
      requests := group.state.requests.filter (· ≠ request) } }
  | .close => { group with state := { group.state with closing := true } }
  | .drive due =>
    match group.driver with
    | .idle => group.drive due
    | _ => group
  | .write outcome =>
    match group.driver with
    | .flying ⟨entries, requests, source, .writing attempts⟩ =>
      group.write ⟨entries, requests, source, .writing attempts⟩ attempts outcome
    | _ => group
  | .flushStore failure =>
    match group.driver with
    | .flying ⟨entries, requests, source, .flushing attempts⟩ =>
      group.flushStore ⟨entries, requests, source, .flushing attempts⟩ attempts failure
    | _ => group
  | .finish =>
    match group.driver with
    | .flying ⟨entries, requests, source, .done outcome⟩ =>
      group.finish ⟨entries, requests, source, .done outcome⟩ outcome
    | _ => group
  | .stop applied =>
    match group.driver with
    | .flying ⟨entries, requests, source, .writing attempts⟩ =>
      (group.land ⟨entries, requests, source, .writing attempts⟩ applied).dropFlight
        ⟨entries, requests, source, .writing attempts⟩
    | .flying ⟨entries, requests, source, .flushing attempts⟩ =>
      group.dropFlight ⟨entries, requests, source, .flushing attempts⟩
    | _ => group
  | .other batch =>
    match group.db.writeBatch batch with
    | .ok db => { group with db := db }.record [.stored batch]
    | .error _ => group

def run (steps : List GroupStep) : CommitGroup := steps.foldl step group

end CommitGroup

end RockStream
