import RockStream.Gateway.ChangeLog
import RockStream.Lib.HashMap
import RockStream.Lib.Meets

/-!
Contract: the live tail of a subscription (`rockstream-gateway/src/subscribe_handler.rs`).

A subscriber remembers the last epoch it was sent. A poll reads the replay floor and the kept
entries after that epoch under one lock and fails when the floor has passed the subscriber.

Owns:
- the registry of change logs, `SubscriberHandle.poll` and `startFromEpoch`;
- `Subscription`, publishers and one subscriber in any order;
- that a subscriber is sent exactly the published entries up to its epoch, and for which
  states a poll reports that one was lost.

Does not own: how a row passes WHERE and is projected, snapshots, stream permits, and the poll
loop with its pauses.
-/

namespace RockStream

open Lib List

variable {entries : List ChangeEntry} {handle next : SubscriberHandle} {floor : Option UInt64}
  {epoch : UInt64}

def SUBSCRIBE_BACKLOG_MAX : Nat := CHANGE_LOG_MAX_ENTRIES

/-- What a subscription does with an encoded row. -/
structure SubscribeRequest where
  passesWhere : Bytes → Bool
  applyProjection : Bytes → Bytes

/-- A request without WHERE and without a projection. -/
def SubscribeRequest.plain : SubscribeRequest := ⟨fun _ => true, id⟩

structure SubscribeRow where
  mzTimestamp : UInt64
  mzDiff : Int
  encodedRow : Bytes
deriving DecidableEq

inductive SubscribeError where
  | epochBeforeRetention (requested earliest : UInt64)
  | consumerTooSlow
  | replayUnavailable (requested : UInt64)
  | limitExceeded (resource : String) (current limit : Nat)
deriving DecidableEq

/-! ## The registry -/

abbrev SubscribeRegistry := HashMap Bytes ViewChangeLog

namespace SubscribeRegistry

variable (registry : SubscribeRegistry) (table : Bytes)

def pushEpoch (changes : List ChangeEntry) : Except ChangeLogError Unit × SubscribeRegistry :=
  let (result, log) :=
    ((registry.lookup table).getD ViewChangeLog.withDefaultCapacity).pushEpoch changes
  (result, registry.insert table log)

def snapshotSinceEpoch (since : UInt64) : Option UInt64 × List ChangeEntry :=
  match registry.lookup table with
  | some log => (log.replayFloor, log.sinceEpoch since)
  | none => (none, [])

def checkReplayStart (requested : UInt64) : Except SubscribeError Unit :=
  match registry.lookup table with
  | none => .error (.replayUnavailable requested)
  | some log =>
    match log.earliestEpoch.filter (requested < ·) with
    | some earliest => .error (.epochBeforeRetention requested earliest)
    | none =>
      if log.entries.length = 0 ∨ log.latestEpochSeen.all (· < requested) then
        .error (.replayUnavailable requested)
      else .ok ()

end SubscribeRegistry

/-! ## The subscriber -/

structure SubscriberHandle where
  tableName : Bytes
  lastSentEpoch : UInt64
  backlogEpochs : Nat
  req : SubscribeRequest

structure PollRows where
  rows : List SubscribeRow
  bytesInEpoch : Nat
  currentEpoch : Option UInt64

/-- The bytes of an epoch that are already sent. -/
def PollRows.bytesOf (current : PollRows) (epoch : UInt64) : Nat :=
  if current.currentEpoch = some epoch then current.bytesInEpoch else 0

/-- The body of the loop of `poll`. -/
def pollEntry (req : SubscribeRequest) (current : PollRows) (entry : ChangeEntry) :
    Except SubscribeError PollRows :=
  if req.passesWhere entry.encodedRow then
    let projected := req.applyProjection entry.encodedRow
    let bytesInEpoch := current.bytesOf entry.epoch + projected.length
    if CHANGE_LOG_MAX_EPOCH_BYTES < bytesInEpoch then
      .error (.limitExceeded "epoch_bytes" bytesInEpoch CHANGE_LOG_MAX_EPOCH_BYTES)
    else
      .ok ⟨current.rows ++ [⟨entry.epoch, entry.mzDiff, projected⟩], bytesInEpoch, some entry.epoch⟩
  else .ok current

namespace SubscriberHandle

def new (tableName : Bytes) (startEpoch : UInt64) (req : SubscribeRequest) : SubscriberHandle :=
  ⟨tableName, startEpoch, 0, req⟩

/-- What `poll` does with the floor and the entries after the last sent epoch. -/
def receive (handle : SubscriberHandle) (next : UInt64) (floor : Option UInt64)
    (entries : List ChangeEntry) : Except SubscribeError (List SubscribeRow) × SubscriberHandle :=
  let latest := (entries.getLast?.map ChangeEntry.time).getD 0
  let backlog := latest - handle.lastSentEpoch.toNat
  let observed := { handle with backlogEpochs := backlog }
  if floor.any (next < ·) then (.error .consumerTooSlow, observed)
  else if entries.isEmpty then (.ok [], observed)
  else if SUBSCRIBE_BACKLOG_MAX < backlog then (.error .consumerTooSlow, observed)
  else match entries.foldlM (pollEntry handle.req) ⟨[], 0, none⟩ with
    | .error error => (.error error, observed)
    | .ok sent => (.ok sent.rows, { observed with
        lastSentEpoch := (entries.getLast?.map ChangeEntry.epoch).getD handle.lastSentEpoch })

def poll (handle : SubscriberHandle) (registry : SubscribeRegistry) :
    Except SubscribeError (List SubscribeRow) × SubscriberHandle :=
  if handle.lastSentEpoch.toNat + 1 < 2 ^ 64 then
    let next := handle.lastSentEpoch + 1
    let (floor, entries) := registry.snapshotSinceEpoch handle.tableName next
    handle.receive next floor entries
  else (.ok [], { handle with backlogEpochs := 0 })

end SubscriberHandle

/-- `start_from_epoch`: the poll after it includes the requested epoch. -/
def startFromEpoch (registry : SubscribeRegistry) (table : Bytes) (req : SubscribeRequest)
    (startEpoch : UInt64) : Except SubscribeError SubscriberHandle := do
  registry.checkReplayStart table startEpoch
  pure (.new table (if startEpoch = 0 then 0 else startEpoch - 1) req)

/-! ## Publishers and a subscriber -/

structure Subscription where
  registry : SubscribeRegistry
  handle : SubscriberHandle
  /-- The epoch the subscriber started at. -/
  start : UInt64
  /-- Everything published for the table, in order. -/
  published : List ChangeEntry
  /-- The rows of all successful polls since the start. -/
  delivered : List SubscribeRow

inductive SubscriptionStep where
  | publish (table : Bytes) (changes : List ChangeEntry)
  | poll
  /-- The subscriber starts again after an epoch. -/
  | subscribe (start : UInt64)
  /-- The subscriber starts again with a replay. -/
  | replay (start : UInt64)

namespace Subscription

def subscribe (state : Subscription) (handle : SubscriberHandle) : Subscription :=
  { state with handle := handle, start := handle.lastSentEpoch, delivered := [] }

def step (state : Subscription) : SubscriptionStep → Subscription
  | .publish table changes =>
    let (result, registry) := state.registry.pushEpoch table changes
    { state with
      registry := registry
      published := if table = state.handle.tableName
        then state.published ++ ViewChangeLog.published changes result else state.published }
  | .poll =>
    match state.handle.poll state.registry with
    | (.ok rows, handle) => { state with handle := handle, delivered := state.delivered ++ rows }
    | (.error _, handle) => { state with handle := handle }
  | .subscribe start => state.subscribe (.new state.handle.tableName start .plain)
  | .replay start =>
    match startFromEpoch state.registry state.handle.tableName .plain start with
    | .ok handle => state.subscribe handle
    | .error _ => state

/-- A table with a fresh log of any capacity and a subscriber. -/
def run (capacity : Nat) (table : Bytes) (start : UInt64) (steps : List SubscriptionStep) :
    Subscription :=
  steps.foldl step ⟨(∅ : SubscribeRegistry).insert table (.new capacity),
    .new table start .plain, start, [], []⟩

def log (state : Subscription) : ViewChangeLog :=
  (state.registry.lookup state.handle.tableName).getD .withDefaultCapacity

/-- A published epoch after the last sent one that the log does not keep completely. -/
def Lost (state : Subscription) (epoch : UInt64) : Prop :=
  state.handle.lastSentEpoch < epoch ∧ (∃ entry ∈ state.published, entry.epoch = epoch) ∧
  state.log.entries.filter (·.epoch = epoch) ≠ state.published.filter (·.epoch = epoch)

end Subscription

/-! ## What holds in every run -/

def ChangeEntry.row (entry : ChangeEntry) : SubscribeRow :=
  ⟨entry.epoch, entry.mzDiff, entry.encodedRow⟩

theorem rows_of_pollEntry {sent : PollRows}
    (ended : entries.foldlM (pollEntry .plain) ⟨[], 0, none⟩ = .ok sent) :
    sent.rows = entries.map ChangeEntry.row := by
  refine Loop.foldlM_invariant
    (fun done (current : PollRows) => current.rows = done.map ChangeEntry.row) ?_ rfl ended
  intro done current entry next rows isNext
  unfold pollEntry at isNext
  rw [if_pos (show SubscribeRequest.plain.passesWhere _ = true from rfl)] at isNext
  dsimp only at isNext
  split at isNext
  · exact absurd isNext (by simp)
  · rw [← Except.ok.inj isNext, map_append, rows]
    rfl

namespace SubscriberHandle

/-- A successful poll sends the rows of all entries it was given and moves to the last of them. -/
theorem receive_eq_ok {since : UInt64} {rows : List SubscribeRow} (plain : handle.req = .plain)
    (received : handle.receive since floor entries = (.ok rows, next)) :
    floor.any (since < ·) = false ∧ rows = entries.map ChangeEntry.row ∧
    next.tableName = handle.tableName ∧ next.req = .plain ∧
    next.lastSentEpoch = (entries.getLast?.map ChangeEntry.epoch).getD handle.lastSentEpoch := by
  unfold receive at received
  dsimp only at received
  split at received
  · exact absurd (congrArg Prod.fst received) (by simp)
  rename_i reached
  refine ⟨Bool.eq_false_iff.mpr reached, ?_⟩
  split at received
  · rename_i isEmpty
    obtain ⟨isRows, rfl⟩ := Prod.mk.inj received
    rw [← Except.ok.inj isRows, isEmpty_iff.mp isEmpty]
    exact ⟨rfl, rfl, plain, rfl⟩
  split at received
  · exact absurd (congrArg Prod.fst received) (by simp)
  split at received
  · exact absurd (congrArg Prod.fst received) (by simp)
  · rename_i ended
    obtain ⟨isRows, rfl⟩ := Prod.mk.inj received
    rw [plain] at ended
    exact ⟨(Except.ok.inj isRows).symm.trans (rows_of_pollEntry ended), rfl, plain, rfl⟩

/-- A floor beyond the next epoch is reported. -/
theorem receive_of_passed (handle : SubscriberHandle) {since : UInt64}
    (entries : List ChangeEntry) (passed : floor.any (since < ·) = true) :
    (handle.receive since floor entries).1 = .error .consumerTooSlow := by
  unfold receive
  rw [if_pos passed]

theorem receive_nil (handle : SubscriberHandle) {since : UInt64}
    (reached : floor.any (since < ·) = false) : (handle.receive since floor []).1 = .ok [] := by
  unfold receive
  rw [if_neg (by simp [reached])]
  rfl

theorem receive_eq_error {since : UInt64} {error : SubscribeError}
    (received : handle.receive since floor entries = (.error error, next)) :
    next.tableName = handle.tableName ∧ next.req = handle.req ∧
    next.lastSentEpoch = handle.lastSentEpoch := by
  unfold receive at received
  dsimp only at received
  repeat' split at received
  all_goals
    obtain ⟨outcome, rfl⟩ := Prod.mk.inj received
    cases outcome <;> exact ⟨rfl, rfl, rfl⟩

end SubscriberHandle

namespace Subscription

variable {state : Subscription}

def sent (state : Subscription) : List ChangeEntry :=
  state.published.filter fun entry =>
    state.start.toNat < entry.time ∧ entry.time ≤ state.handle.lastSentEpoch.toNat

def unsent (state : Subscription) : List ChangeEntry :=
  state.published.filter fun entry => state.handle.lastSentEpoch.toNat < entry.time

/-- What is known of a subscription. -/
structure Follows (state : Subscription) : Prop where
  logged : ∃ log, state.registry.lookup state.handle.tableName = some log
  keeps : ∃ lost, state.log.Keeps state.published lost
  bounded : state.log.Bounded
  plain : state.handle.req = .plain
  delivered : state.delivered = state.sent.map ChangeEntry.row
  started : state.start.toNat ≤ state.handle.lastSentEpoch.toNat
  cursor : state.handle.lastSentEpoch = state.start ∨
    ∃ entry ∈ state.published, entry.epoch = state.handle.lastSentEpoch

/-- A fresh start is sent nothing yet. -/
theorem Follows.subscribe (follows : state.Follows) (start : UInt64) :
    (state.subscribe (.new state.handle.tableName start .plain)).Follows where
  logged := follows.logged
  keeps := follows.keeps
  bounded := follows.bounded
  plain := rfl
  delivered := by
    have none : (state.subscribe (.new state.handle.tableName start .plain)).sent = [] := by
      refine filter_eq_nil_iff.mpr fun entry _ => ?_
      rw [decide_eq_true_eq]
      exact fun inside => absurd inside.1 (not_lt.mpr inside.2)
    rw [none]
    rfl
  started := le_rfl
  cursor := .inl rfl

theorem log_publish (state : Subscription) (table : Bytes) (changes : List ChangeEntry) :
    (state.step (.publish table changes)).log =
      if table = state.handle.tableName then (state.log.pushEpoch changes).2 else state.log := by
  simp only [log, Subscription.step, SubscribeRegistry.pushEpoch]
  split
  · rename_i same
    subst same
    rw [AList.lookup_insert]
    rfl
  · rename_i apart
    rw [AList.lookup_insert_ne (Ne.symm apart)]

section

variable (follows : state.Follows)
include follows

theorem Follows.unsent {added : List ChangeEntry}
    (newer : ∀ entry ∈ state.published, ∀ other ∈ added, entry.time < other.time) :
    (state.published ++ added).filter (fun entry => state.start.toNat < entry.time ∧
      entry.time ≤ state.handle.lastSentEpoch.toNat) = state.sent := by
  rw [filter_append]
  have none : added.filter (fun entry => state.start.toNat < entry.time ∧
      entry.time ≤ state.handle.lastSentEpoch.toNat) = [] := by
    refine filter_eq_nil_iff.mpr fun other mem => ?_
    rw [decide_eq_true_eq]
    rintro ⟨after, before⟩
    rcases follows.cursor with same | ⟨entry, isEntry, isLast⟩
    · rw [same] at before
      omega
    · have := newer entry isEntry other mem
      rw [← isLast] at before
      exact absurd before (not_le.mpr this)
  rw [none, append_nil]
  rfl

theorem Follows.publish (table : Bytes) (changes : List ChangeEntry) :
    (state.step (.publish table changes)).Follows := by
  have isLog := state.log_publish table changes
  obtain ⟨lost, keeps⟩ := follows.keeps
  by_cases same : table = state.handle.tableName
  · rw [if_pos same] at isLog
    have isResult : (state.registry.pushEpoch table changes).1 =
      (state.log.pushEpoch changes).1 := by
      rw [same]
      rfl
    have isPublished : (state.step (.publish table changes)).published =
        state.published ++ ViewChangeLog.published changes (state.log.pushEpoch changes).1 := by
      rw [← isResult]
      exact if_pos same
    refine ⟨?_, ?_, ?_, follows.plain, ?_, follows.started, ?_⟩
    · subst same
      exact ⟨_, AList.lookup_insert _⟩
    · rw [isLog, isPublished]
      exact keeps.pushEpoch changes
    · rw [isLog]
      exact follows.bounded.pushEpoch changes
    · unfold sent
      rw [isPublished]
      exact follows.delivered.trans (congrArg _ (follows.unsent (keeps.newer changes)).symm)
    · rw [isPublished]
      exact follows.cursor.imp id fun ⟨entry, mem, isLast⟩ =>
        ⟨entry, mem_append_left _ mem, isLast⟩
  · rw [if_neg same] at isLog
    have isPublished : (state.step (.publish table changes)).published = state.published :=
      if_neg same
    obtain ⟨log, found⟩ := follows.logged
    refine ⟨⟨log, (AList.lookup_insert_ne (Ne.symm same)).trans found⟩, ?_, isLog ▸ follows.bounded,
      follows.plain, ?_, follows.started, isPublished ▸ follows.cursor⟩
    · rw [isLog, isPublished]
      exact ⟨lost, keeps⟩
    · unfold sent
      rw [isPublished]
      exact follows.delivered

theorem Follows.stay (table : handle.tableName = state.handle.tableName)
    (plain : handle.req = .plain) (last : handle.lastSentEpoch = state.handle.lastSentEpoch) :
    { state with handle := handle }.Follows := by
  obtain ⟨tableName, lastSentEpoch, backlog, req⟩ := handle
  subst table last
  exact { follows with plain := plain }

theorem Follows.poll_eq (notLast : state.handle.lastSentEpoch.toNat + 1 < 2 ^ 64) :
    state.handle.poll state.registry = state.handle.receive (state.handle.lastSentEpoch + 1)
      state.log.replayFloor (state.log.sinceEpoch (state.handle.lastSentEpoch + 1)) := by
  obtain ⟨log, found⟩ := follows.logged
  unfold SubscriberHandle.poll
  rw [if_pos notLast]
  simp only [SubscribeRegistry.snapshotSinceEpoch, Subscription.log, found, Option.getD_some]

end

theorem toNat_next (notLast : epoch.toNat + 1 < 2 ^ 64) : (epoch + 1).toNat = epoch.toNat + 1 := by
  simp
  omega

section

variable (follows : state.Follows)
include follows

/-- Unless the floor has passed it, a subscriber reads everything published after its epoch, or
nothing. -/
theorem Follows.since (notLast : state.handle.lastSentEpoch.toNat + 1 < 2 ^ 64)
    (reached : state.log.replayFloor.any (state.handle.lastSentEpoch + 1 < ·) = false) :
    state.log.sinceEpoch (state.handle.lastSentEpoch + 1) = [] ∨
    state.log.sinceEpoch (state.handle.lastSentEpoch + 1) = state.unsent := by
  obtain ⟨lost, keeps⟩ := follows.keeps
  have isNext := toNat_next notLast
  have floor : (state.log.replayFloor.getD 0).toNat ≤ state.handle.lastSentEpoch.toNat + 1 := by
    cases isFloor : state.log.replayFloor with
    | none => exact Nat.zero_le _
    | some floor =>
      rw [isFloor, Option.any_some, decide_eq_false_iff_not, UInt64.lt_iff_toNat_lt, isNext]
        at reached
      simpa using reached
  rw [keeps.floor] at floor
  unfold ViewChangeLog.sinceEpoch
  rw [keeps.entries, filter_filter]
  by_cases complete : lost ≤ state.handle.lastSentEpoch.toNat + 1
  · refine .inr (filter_congr fun entry _ => ?_)
    rw [← Bool.decide_and, decide_eq_decide, UInt64.le_iff_toNat_le, isNext]
    unfold ChangeEntry.time
    omega
  · -- The floor stands at the largest epoch, and nothing is kept.
    refine .inl (filter_eq_nil_iff.mpr fun entry _ => ?_)
    have bound := entry.epoch.toNat_lt
    rw [← Bool.decide_and, decide_eq_true_eq]
    rintro ⟨-, kept⟩
    unfold ChangeEntry.time at kept
    omega

theorem Follows.advance {last : ChangeEntry}
    (table : handle.tableName = state.handle.tableName) (plain : handle.req = .plain)
    (isLast : state.unsent.getLast? = some last) (moved : handle.lastSentEpoch = last.epoch) :
    Follows { state with
      handle := handle
      delivered := state.delivered ++ state.unsent.map ChangeEntry.row } := by
  obtain ⟨lost, keeps⟩ := follows.keeps
  obtain ⟨before, isUnsent⟩ := getLast?_eq_some_iff.mp isLast
  have isUnread : last ∈ state.unsent := by
    rw [isUnsent]
    simp
  obtain ⟨isPublished, isAfter⟩ := mem_filter.mp isUnread
  have after : state.handle.lastSentEpoch.toNat < last.time := of_decide_eq_true isAfter
  have greatest : ∀ entry ∈ state.published, state.handle.lastSentEpoch.toNat < entry.time →
      entry.time ≤ last.time := by
    intro entry mem later
    have inside : entry ∈ before ++ [last] := by
      rw [← isUnsent]
      exact mem_filter.mpr ⟨mem, decide_eq_true later⟩
    have ordered : Ordered ChangeEntry.time (before ++ [last]) := by
      rw [← isUnsent]
      exact keeps.ordered.filter _
    rcases mem_append.mp inside with early | same
    · exact (pairwise_append.mp ordered).2.2 entry early last (mem_singleton.mpr rfl)
    · rw [mem_singleton.mp same]
  obtain ⟨tableName, lastSentEpoch, backlog, req⟩ := handle
  subst table moved
  refine { follows with
    plain := plain
    delivered := ?_
    started := follows.started.trans after.le
    cursor := .inr ⟨last, isPublished, rfl⟩ }
  unfold sent
  rw [show last.epoch.toNat = last.time from rfl,
    keeps.ordered.filter_range follows.started after.le, map_append, follows.delivered]
  refine congrArg _ (congrArg _ (filter_congr fun entry mem => ?_))
  rw [decide_eq_decide]
  exact ⟨fun later => ⟨later, greatest entry mem later⟩, And.left⟩

theorem Follows.poll : (state.step .poll).Follows := by
  unfold Subscription.step
  by_cases notLast : state.handle.lastSentEpoch.toNat + 1 < 2 ^ 64
  · rw [follows.poll_eq notLast]
    cases received : state.handle.receive (state.handle.lastSentEpoch + 1) state.log.replayFloor
      (state.log.sinceEpoch (state.handle.lastSentEpoch + 1)) with
    | mk result handle =>
      cases result with
      | error error =>
        obtain ⟨table, req, last⟩ := SubscriberHandle.receive_eq_error received
        exact follows.stay table (req.trans follows.plain) last
      | ok rows =>
        obtain ⟨reached, rfl, table, plain, moved⟩ :=
          SubscriberHandle.receive_eq_ok follows.plain received
        dsimp only
        cases isLast : (state.log.sinceEpoch (state.handle.lastSentEpoch + 1)).getLast? with
        | none =>
          rw [isLast] at moved
          rw [getLast?_eq_none_iff.mp isLast, map_nil, append_nil]
          exact follows.stay table plain moved
        | some last =>
          have nonempty : state.log.sinceEpoch (state.handle.lastSentEpoch + 1) ≠ [] := by
            intro isEmpty
            rw [isEmpty] at isLast
            exact absurd isLast (by simp)
          have all := (follows.since notLast reached).resolve_left nonempty
          rw [isLast] at moved
          rw [all] at isLast ⊢
          exact follows.advance table plain isLast moved
  · unfold SubscriberHandle.poll
    rw [if_neg notLast]
    dsimp only
    rw [append_nil]
    exact follows.stay rfl follows.plain rfl

theorem Follows.step (next : SubscriptionStep) :
    (state.step next).Follows := by
  cases next with
  | publish table changes => exact follows.publish table changes
  | poll => exact follows.poll
  | subscribe start => exact follows.subscribe start
  | replay start =>
    unfold Subscription.step
    dsimp only
    split
    · rename_i handle started
      obtain ⟨-, -, isHandle⟩ := Loop.bind_eq_ok.mp started
      rw [← Except.ok.inj isHandle]
      exact follows.subscribe _
    · exact follows

end

theorem follows_run (capacity : Nat) (table : Bytes) (start : UInt64)
    (steps : List SubscriptionStep) : (run capacity table start steps).Follows := by
  induction steps using reverseRecOn with
  | nil =>
    have fresh : (run capacity table start []).registry.lookup table = some (.new capacity) :=
      AList.lookup_insert _
    have isLog : (run capacity table start []).log = .new capacity := by
      unfold log
      rw [show (run capacity table start []).handle.tableName = table from rfl, fresh]
      rfl
    refine ⟨⟨_, fresh⟩, ?_, ?_, rfl, rfl, le_rfl, .inl rfl⟩
    · rw [isLog]
      exact ⟨0, .nil, rfl, rfl, nofun, .inl rfl⟩
    · rw [isLog]
      exact ⟨rfl, Nat.zero_le _, Nat.zero_le _⟩
  | append_singleton steps next ih =>
    unfold run
    rw [foldl_append]
    exact ih.step next

theorem lt_of_lost {lost : Nat} (keeps : state.log.Keeps state.published lost)
    (isLost : state.Lost epoch) : epoch.toNat < lost := by
  by_contra! kept
  refine isLost.2.2 ?_
  rw [keeps.entries, filter_filter]
  refine filter_congr fun entry _ => ?_
  rw [← Bool.decide_and, decide_eq_decide]
  refine ⟨And.left, fun same => ⟨same, ?_⟩⟩
  rw [ChangeEntry.time, same]
  exact kept

end Subscription

def MAX_EPOCH : UInt64 := 0xFFFFFFFFFFFFFFFF

/-- In every run a subscriber has been sent exactly the published entries of the epochs up to its
own, in their order; and a poll reports every loss except that of the largest epoch to a subscriber
that has got the one before. -/
theorem subscription_gap_iff (capacity : Nat) (table : Bytes) (start : UInt64)
    (steps : List SubscriptionStep) :
    let state := Subscription.run capacity table start steps
    state.delivered = (state.published.filter fun entry =>
      state.start.toNat < entry.time ∧ entry.time ≤ state.handle.lastSentEpoch.toNat).map
        ChangeEntry.row ∧
    ((∀ epoch, state.Lost epoch → ∃ error, (state.handle.poll state.registry).1 = .error error) ↔
      ¬ (state.Lost MAX_EPOCH ∧ state.handle.lastSentEpoch = MAX_EPOCH - 1)) := by
  intro state
  have follows : state.Follows := Subscription.follows_run capacity table start steps
  obtain ⟨lost, keeps⟩ := follows.keeps
  have maximum : MAX_EPOCH.toNat = 2 ^ 64 - 1 := rfl
  refine ⟨follows.delivered, ?_, ?_⟩
  · rintro reports ⟨isLost, isLast⟩
    obtain ⟨error, isError⟩ := reports MAX_EPOCH isLost
    have beyond := Subscription.lt_of_lost keeps isLost
    have nothing : state.log.entries = [] := by
      rw [keeps.entries]
      refine filter_eq_nil_iff.mpr fun entry _ => ?_
      have bound := entry.epoch.toNat_lt
      rw [decide_eq_true_eq]
      unfold ChangeEntry.time
      omega
    have notPassed : state.log.replayFloor.any (MAX_EPOCH - 1 + 1 < ·) = false := by
      cases state.log.replayFloor with
      | none => rfl
      | some floor =>
        have bound := floor.toNat_lt
        rw [Option.any_some, decide_eq_false_iff_not, UInt64.lt_iff_toNat_lt,
          show (MAX_EPOCH - 1 + 1).toNat = 2 ^ 64 - 1 from rfl]
        omega
    have silent := state.handle.receive_nil notPassed
    rw [follows.poll_eq (by rw [isLast]; decide), ViewChangeLog.sinceEpoch, nothing, isLast]
      at isError
    exact absurd (silent.symm.trans isError) (by simp)
  · intro notLast epoch isLost
    have beyond := Subscription.lt_of_lost keeps isLost
    have after := UInt64.lt_iff_toNat_lt.mp isLost.1
    have bound := epoch.toNat_lt
    have isNext := Subscription.toNat_next
      (show state.handle.lastSentEpoch.toNat + 1 < 2 ^ 64 by omega)
    have floor := keeps.floor
    have before : state.handle.lastSentEpoch.toNat + 1 < 2 ^ 64 - 1 := by
      by_contra! late
      have isMaximum : epoch = MAX_EPOCH := UInt64.toNat_inj.mp (by omega)
      have isLast : state.handle.lastSentEpoch = MAX_EPOCH - 1 := UInt64.toNat_inj.mp (by
        rw [show (MAX_EPOCH - 1).toNat = 2 ^ 64 - 2 from rfl]
        omega)
      exact notLast ⟨isMaximum ▸ isLost, isLast⟩
    have passed : state.log.replayFloor.any (state.handle.lastSentEpoch + 1 < ·) = true := by
      cases isFloor : state.log.replayFloor with
      | none =>
        rw [isFloor] at floor
        have : (0 : UInt64).toNat = 0 := rfl
        simp only [Option.getD_none] at floor
        omega
      | some value =>
        rw [isFloor, Option.getD_some] at floor
        rw [Option.any_some, decide_eq_true_eq, UInt64.lt_iff_toNat_lt, isNext, floor]
        omega
    rw [follows.poll_eq (by omega)]
    exact ⟨_, state.handle.receive_of_passed _ passed⟩

/-! ### The largest epoch -/

/-- One row more than a log of capacity one keeps, in the largest epoch. -/
def largestEpoch : List ChangeEntry := [⟨MAX_EPOCH, [1], 1, [1]⟩, ⟨MAX_EPOCH, [2], 1, [2]⟩]

/-- The largest epoch is published but too large to be kept, and the subscriber that has got the one
before polls without an error. -/
theorem largest_epoch_lost :
    let state := Subscription.run 1 [0x74] (MAX_EPOCH - 1) [.publish [0x74] largestEpoch]
    state.Lost MAX_EPOCH ∧ (state.handle.poll state.registry).1 = .ok [] := by
  refine ⟨⟨by decide, ⟨_, mem_cons_self, rfl⟩, ?_⟩, rfl⟩
  decide +kernel

end RockStream
