import RockStream.Gateway.Commit

/-!
Contract: how often the operations of one idempotency key are applied.

What a step of the gateway can do to the store, the phases of the connections and the
history is said once, as the steps of `CommitCore`. Every fact about whole runs is an
invariant of those.

Owns:
- conditions on the steps of a gateway, `orderly` and `steady`, each for one key;
- `CommitCore` and that the steps of the gateway are steps of it;
- that the store is what the history says was written, and that the submitted requests of a
  COMMIT are the first ones of its list;
- that a key is applied at most once in every orderly run.

Does not own: what the submitted requests are.
-/

namespace RockStream

open Lib ShardKeyEncoder List Function Store CommitPhase Gateway

variable {store start : Store} {reads : Bytes → Option String} {session : SessionState}
  {conn : ConnId} {phase : CommitPhase} {next : CommitCore} {catalog : Option ViewCatalog}

variable {query : KeyHash} {number : Nat} {carried key : Option KeyHash} {ops : List DmlOp}
  {event : GatewayEvent}

/-! ## Key records -/

def Recorded (store : Store) (key : KeyHash) : Prop :=
  ∃ bytes, store.lookup (idempotencyKey 0 key) = some bytes ∧ 8 ≤ bytes.length

theorem key_ne_of_mem_appendDmlOps {mutation : StateMutation} (mem : mutation ∈ appendDmlOps ops)
    (key : KeyHash) : idempotencyKey 0 key ≠ mutation.key := by
  obtain ⟨op, _, isMutation⟩ := mem_flatMap.mp mem
  have table : ∃ table rowKey, mutation.key = viewOutputKey table rowKey := by
    cases op <;> simp only [DmlOp.mutations, mem_cons, not_mem_nil, or_false] at isMutation
    · subst isMutation
      exact ⟨_, _, rfl⟩
    · rcases isMutation with rfl | rfl <;> exact ⟨_, _, rfl⟩
    · subst isMutation
      exact ⟨_, _, rfl⟩
  obtain ⟨table, rowKey, isKey⟩ := table
  rw [isKey]
  simp [idempotencyKey, viewOutputKey, viewOutputPrefix]

theorem lookup_commitBatch (store : Store) (ops : List DmlOp) (key : Option KeyHash)
    (epoch nowMs : Nat) (views : OtherWrites) (query : KeyHash) :
    (store.writeBatch (commitBatch ops key epoch nowMs views)).lookup (idempotencyKey 0 query) =
      if key = some query then some (Bytes.beBytes 8 epoch ++ Bytes.beBytes 8 nowMs)
      else store.lookup (idempotencyKey 0 query) := by
  have frontier : ∀ mutation ∈ [StateMutation.put frontierKey (Bytes.beBytes 8 epoch)],
      idempotencyKey 0 query ≠ mutation.key := by
    intro mutation mem
    rw [mem_singleton.mp mem]
    simp [idempotencyKey, frontierKey, StateMutation.key]
  have tables : (store.writeBatch (appendDmlOps ops)).lookup (idempotencyKey 0 query) =
      store.lookup (idempotencyKey 0 query) :=
    lookup_writeBatch_of_ne _ fun mutation mem => key_ne_of_mem_appendDmlOps mem query
  unfold commitBatch
  rw [writeBatch_append, writeBatch_append, writeBatch_append,
    lookup_writeBatch_of_ne _ fun mutation mem => (views.2 mutation mem query).symm,
    lookup_writeBatch_of_ne _ frontier]
  cases key with
  | none => exact tables
  | some keyHash =>
    by_cases same : keyHash = query
    · subst same
      rw [if_pos rfl]
      exact AList.lookup_insert _
    · rw [if_neg fun equal => same (Option.some.inj equal), ← tables]
      exact AList.lookup_insert_ne fun equal =>
        same (by simpa [idempotencyKey, Vector.toList_inj] using equal.symm)

theorem recorded_writeBatch (recorded : key = some query ∨ Recorded store query) (ops : List DmlOp)
    (epoch nowMs : Nat) (views : OtherWrites) :
    Recorded (store.writeBatch (commitBatch ops key epoch nowMs views)) query := by
  unfold Recorded
  rw [lookup_commitBatch]
  split
  · exact ⟨_, rfl, by simp⟩
  · next other => exact recorded.resolve_left other

/-! ## Conditions on steps -/

/-- A COMMIT with the key that has requests left to submit. -/
def CommitPhase.pending (query : KeyHash) : CommitPhase → Bool
  | refreshing _ carried _ (_ :: _) => carried = some query
  | _ => false

namespace Gateway

/-- A COMMIT with the key takes the lock only while the key is not recorded and with operations that
are kept, and comes with an empty buffer only when the key is recorded. -/
def orderly (query : KeyHash) (state : Gateway) : GatewayStep → Prop
  | .commit conn _ _ => (state.sessions conn).idempotencyKey = some query →
      (state.buffers conn).ops = [] → Recorded state.db.store query
  | .apply conn weather => ∀ number ops key,
    state.phases conn = .waiting number (some query) ops key →
      ¬ Recorded state.db.store query ∧
        committedDmlOps (state.db.store.faultyReader weather.reads) ops ≠ .ok []
  | _ => True

/-- While a COMMIT with the key has requests left, none of them fails, its connection stays, and no
other COMMIT with the key begins. -/
def steady (query : KeyHash) (state : Gateway) : GatewayStep → Prop
  | .commit conn _ _ => (state.sessions conn).idempotencyKey = some query →
      ∀ holder ∈ state.lock, (state.phases holder).pending query = false
  | .submit conn failure => (state.phases conn).pending query = true → failure = none
  | .cancel conn => (state.phases conn).pending query = false
  | _ => True

end Gateway

/-! ## What a step does -/

/-- The part of a gateway that the laws are about. -/
structure CommitCore where
  store : Store
  phases : ConnId → CommitPhase
  lock : Option ConnId
  commits : Nat
  history : List GatewayEvent

def Gateway.core (state : Gateway) : CommitCore :=
  ⟨state.db.store, state.phases, state.lock, state.commits, state.history⟩

/-- A step, and what it means for the keys for which it is orderly or steady. -/
inductive CommitCore.Step (catalog : Option ViewCatalog) (orderly steady : KeyHash → Prop) :
    CommitCore → CommitCore → Prop where
  /-- An answer before the lock. -/
  | answer (core : CommitCore) (carried : Option KeyHash) (answer : CommitAnswer)
      (found : ∀ query count, orderly query → carried = some query → answer = .ok count →
        Recorded core.store query)
      (alone : ∀ query, steady query → carried = some query →
        ∀ holder ∈ core.lock, (core.phases holder).pending query = false) :
      Step catalog orderly steady core { core with
        commits := core.commits + 1
        history := core.history ++ [.answered core.commits carried answer] }
  | look (core : CommitCore) (conn : ConnId) (carried : Option KeyHash) (ops : List DmlOp)
      (key : Option KeyHash) (idle : core.phases conn = .idle)
      (unrecorded : ∀ query, carried = some query → ¬ Recorded core.store query)
      (kept : ∀ query, carried = some query → key = some query) :
      Step catalog orderly steady core { core with
        phases := Function.update core.phases conn (.waiting core.commits carried ops key)
        commits := core.commits + 1
        history := core.history ++ [.looked core.commits carried] }
  /-- An answer under the lock, without a write. -/
  | refuse (core : CommitCore) (conn : ConnId) (number : Nat) (carried : Option KeyHash)
      (ops : List DmlOp) (key : Option KeyHash) (answer : CommitAnswer)
      (waiting : core.phases conn = .waiting number carried ops key) (free : core.lock = none)
      (failed : ∀ query count, orderly query → carried = some query → answer ≠ .ok count) :
      Step catalog orderly steady core { core with
        phases := Function.update core.phases conn .idle
        history := core.history ++ [.answered number carried answer] }
  | write (core : CommitCore) (conn : ConnId) (number : Nat) (carried : Option KeyHash)
      (ops : List DmlOp) (key : Option KeyHash) (written : WrittenCommit) (nowMs : Nat)
      (views : OtherWrites) (waiting : core.phases conn = .waiting number carried ops key)
      (free : core.lock = none)
      (batch : written.batch = commitBatch written.ops key written.epoch nowMs views)
      (fresh : ∀ query, orderly query → carried = some query → ¬ Recorded core.store query) :
      Step catalog orderly steady core { core with
        store := core.store.writeBatch written.batch
        phases := Function.update core.phases conn
          (.refreshing number carried written.ops.length (written.requests catalog))
        lock := some conn
        history := core.history ++ [.wrote number carried written] }
  | submit (core : CommitCore) (conn : ConnId) (number : Nat) (carried : Option KeyHash)
      (affected : Nat) (request : SourceDeltaRequest) (rest : List SourceDeltaRequest)
      (refreshing : core.phases conn = .refreshing number carried affected (request :: rest)) :
      Step catalog orderly steady core { core with
        phases := Function.update core.phases conn (.refreshing number carried affected rest)
        history := core.history ++ [.submitted number request] }
  /-- The end of a COMMIT that holds the lock, with or without an answer. -/
  | leave (core : CommitCore) (conn : ConnId) (number : Nat) (carried : Option KeyHash)
      (affected : Nat) (requests : List SourceDeltaRequest) (answer : Option CommitAnswer)
      (refreshing : core.phases conn = .refreshing number carried affected requests)
      (whole : ∀ count, answer = some (.ok count) → requests = [])
      (stayed : ∀ query, steady query → carried = some query → requests = []) :
      Step catalog orderly steady core { core with
        phases := Function.update core.phases conn .idle
        lock := none
        history := core.history ++ (answer.map (.answered number carried)).toList }
  | giveUp (core : CommitCore) (conn : ConnId) (number : Nat) (carried : Option KeyHash)
      (ops : List DmlOp) (key : Option KeyHash)
      (waiting : core.phases conn = .waiting number carried ops key) :
      Step catalog orderly steady core
        { core with phases := Function.update core.phases conn .idle }
  | store (core : CommitCore) (writes : OtherWrites) (free : core.lock = none) :
      Step catalog orderly steady core { core with
        store := core.store.writeBatch writes.1
        history := core.history ++ [.stored writes] }

/-- A lookup that does not fail finds a record exactly if there is one. -/
theorem recorded_iff_of_priorEpoch {found : Option Nat}
    (carried : session.idempotencyKey = some query)
    (looked : priorEpoch (store.faultyReader reads) session = .ok found) :
    Recorded store query ↔ found.isSome := by
  unfold priorEpoch at looked
  rw [carried] at looked
  obtain ⟨record, isRead, isFound⟩ := Loop.bind_eq_ok.mp looked
  rw [← Except.ok.inj isFound]
  unfold faultyReader at isRead
  cases failing : reads (idempotencyKey 0 query) with
  | some message =>
    rw [failing] at isRead
    exact absurd isRead (by simp)
  | none =>
    rw [failing] at isRead
    rw [Recorded, Except.ok.inj isRead]
    cases record with
    | none => simp
    | some bytes => by_cases long : 8 ≤ bytes.length <;> simp [long]

theorem handleCommit_staged {generated : KeyHash} {buffer : WriteBuffer}
    (staged : (handleCommit (some (store.faultyReader reads)) session generated buffer).1 =
      .staged ops key) (query : KeyHash) (carried : session.idempotencyKey = some query) :
    ¬ Recorded store query ∧ key = some query := by
  unfold handleCommit at staged
  split at staged
  · exact absurd staged (by simp)
  · dsimp only at staged
    split at staged
    · exact absurd staged (by simp)
    · exact absurd staged (by simp)
    · rename_i notFound
      obtain ⟨-, rfl⟩ := CommitStart.staged.inj staged
      rw [recorded_iff_of_priorEpoch carried notFound]
      exact ⟨by simp, by simp [SessionState.recordedKey, carried]⟩

/-- A success before the lock is that of an empty buffer or of a recorded key. -/
theorem handleCommit_answered {generated : KeyHash} {buffer : WriteBuffer} {count : Option Nat}
    (answered : (handleCommit (some (store.faultyReader reads)) session generated buffer).1 =
      .answered (.ok count)) (carried : session.idempotencyKey = some query) :
    buffer.ops = [] ∨ Recorded store query := by
  unfold handleCommit at answered
  split at answered
  · next empty => exact .inl (isEmpty_iff.mp empty)
  · dsimp only at answered
    split at answered
    · cases answered
    · next found => exact .inr ((recorded_iff_of_priorEpoch carried found).mpr rfl)
    · cases answered

/-- The store has changed only by a batch that is reported as written, and a success without one
means that no operation was kept. -/
def ReportsWrites (weather : CommitWeather) (ops : List DmlOp) (key : Option KeyHash) (db : ShardDb)
    (outcome : Except GatewayFault (Option WrittenCommit) × ShardDb) : Prop :=
  match outcome.1 with
  | .ok (some written) => outcome.2.store = db.store.writeBatch written.batch ∧
      ∃ views, written.batch = commitBatch written.ops key written.epoch weather.nowMs views
  | .ok none => outcome.2.store = db.store ∧
      committedDmlOps (db.store.faultyReader weather.reads) ops = .ok []
  | .error _ => outcome.2.store = db.store

theorem reportsWrites_commitLocalOps (weather : CommitWeather) (ops : List DmlOp)
    (key : Option KeyHash) (db : ShardDb) :
    ReportsWrites weather ops key db (commitLocalOps weather ops key db) := by
  unfold commitLocalOps
  split
  · rfl
  split
  · rfl
  · exact ⟨rfl, ‹_›⟩
  split
  · rfl
  dsimp only
  split
  · rfl
  · rename_i views _
    split
    · rfl
    · split
      · rfl
      · rename_i isWritten
        refine ⟨?_, views, rfl⟩
        unfold ShardDb.writeBatch at isWritten
        split at isWritten
        · rw [← Except.ok.inj isWritten]
        · exact absurd isWritten (by simp)

namespace Gateway

variable (catalog : Option ViewCatalog) (state : Gateway) (conn : ConnId)

/-- The steps of the core that a step of the gateway may take. -/
abbrev CoreStep (next : GatewayStep) : CommitCore → CommitCore → Prop :=
  CommitCore.Step catalog (fun query => state.orderly query next)
    fun query => state.steady query next

theorem core_commit (generated : KeyHash) (reads : Bytes → Option String)
    (idle : state.phases conn = .idle) : state.CoreStep catalog (.commit conn generated reads)
      state.core (state.commit conn generated reads).core := by
  cases outcome : handleCommit (some (state.db.store.faultyReader reads)) (state.sessions conn)
    generated (state.buffers conn) with
  | mk next buffer =>
    unfold commit
    rw [outcome]
    cases next with
    | answered answer =>
      refine .answer state.core _ answer (fun query count orderly carried success => ?_)
        fun query steady => steady
      subst success
      rcases handleCommit_answered (congrArg Prod.fst outcome) carried with empty | recorded
      · exact orderly carried empty
      · exact recorded
    | staged ops key =>
      have found := handleCommit_staged (congrArg Prod.fst outcome)
      exact .look state.core conn _ ops key idle (fun query carried => (found query carried).1)
        fun query carried => (found query carried).2

theorem core_apply (weather : CommitWeather) (free : state.lock = none)
    (waiting : state.phases conn = .waiting number carried ops key) :
    state.CoreStep catalog (.apply conn weather) state.core
      (state.apply catalog conn weather number carried ops key).core := by
  have spec := reportsWrites_commitLocalOps weather ops key state.db
  unfold apply
  match commitLocalOps weather ops key state.db, spec with
  | (.error fault, ⟨store, allocated, last⟩), same =>
    subst same
    exact .refuse state.core conn number carried ops key (.error fault) waiting free nofun
  | (.ok none, ⟨store, allocated, last⟩), ⟨same, filtered⟩ =>
    subst same
    refine .refuse state.core conn number carried ops key (.ok none) waiting free ?_
    rintro query count orderly rfl -
    exact (orderly number ops key waiting).2 filtered
  | (.ok (some written), ⟨store, allocated, last⟩), ⟨stored, views, batch⟩ =>
    subst stored
    refine .write state.core conn number carried ops key written weather.nowMs views waiting free
      batch ?_
    rintro query orderly rfl
    exact (orderly number ops key waiting).1

theorem core_submit {affected : Nat} {request : SourceDeltaRequest} {rest : List SourceDeltaRequest}
    (refreshing : state.phases conn = .refreshing number carried affected (request :: rest))
    (failure : Option (String × Bool)) :
    Relation.ReflTransGen (state.CoreStep catalog (.submit conn failure)) state.core
      (state.submit conn number carried affected request rest failure).core := by
  let sent : CommitCore := { state.core with
    phases := update state.phases conn (.refreshing number carried affected rest)
    history := state.history ++ [.submitted number request] }
  have submitted : state.CoreStep catalog (.submit conn failure) state.core sent :=
    .submit state.core conn number carried affected request rest refreshing
  -- A step with a failure is not steady for the key that the COMMIT carries.
  have unsteady : ∀ requests : List SourceDeltaRequest, ∀ message query,
      failure = some message → state.steady query (.submit conn failure) → carried = some query →
      requests = [] := by
    rintro requests message query rfl steady rfl
    exact absurd (steady (by simp [refreshing, pending])) (by simp)
  match failure with
  | none => exact .single submitted
  | some (error, false) =>
    exact .single (.leave state.core conn number carried affected (request :: rest)
      (some (.error _)) refreshing nofun fun query => unsteady _ _ query rfl)
  | some (error, true) =>
    have left : state.CoreStep catalog (.submit conn (some (error, true))) sent _ :=
      .leave sent conn number carried affected rest
        (some (.error (.queryTimeExecutionFailed (.distributedRefresh request.view error))))
        (update_self conn _ state.phases) nofun fun query => unsteady _ _ query rfl
    refine Relation.ReflTransGen.tail (.single submitted) ?_
    simpa [sent, core, submit, record, leave, enter] using left

theorem core_step (next : GatewayStep) : Relation.ReflTransGen (state.CoreStep catalog next)
    state.core (state.step catalog next).core := by
  unfold step
  cases next with
  | statement conn call =>
    dsimp only
    split <;> exact .refl
  | rollback conn => exact .refl
  | set conn session => exact .refl
  | commit conn generated reads =>
    dsimp only
    split
    · exact .single (core_commit catalog state conn generated reads ‹_›)
    · exact .refl
  | apply conn weather =>
    dsimp only
    split
    · exact .single (core_apply catalog state conn weather ‹_› ‹_›)
    · exact .refl
  | submit conn failure =>
    dsimp only
    split
    · exact core_submit catalog state conn ‹_› failure
    · exact .refl
  | finish conn failure =>
    dsimp only
    split
    · exact .single (.leave state.core conn _ _ _ [] (some _) ‹_› (fun _ _ => rfl) fun _ _ _ => rfl)
    · exact .refl
  | cancel conn =>
    dsimp only
    split
    · exact .refl
    · exact .single (.giveUp state.core conn _ _ _ _ ‹_›)
    · rename_i number carried affected requests refreshing
      have stayed : ∀ query, state.steady query (.cancel conn) → carried = some query →
          requests = [] := by
        rintro query steady rfl
        have stays : (state.phases conn).pending query = false := steady
        cases requests with
        | nil => rfl
        | cons request rest => simp [refreshing, pending] at stays
      have left : state.CoreStep catalog (.cancel conn) state.core _ :=
        .leave state.core conn _ _ _ _ none refreshing (by simp) stayed
      refine .single ?_
      simpa [core, leave, enter] using left
  | other writes =>
    dsimp only
    split
    · exact .single (.store state.core writes ‹_›)
    · exact .refl

end Gateway

/-! ## What holds in every run -/

namespace GatewayEvent

def mutations : GatewayEvent → List StateMutation
  | wrote _ _ written => written.batch
  | stored writes => writes.1
  | _ => []

def writes (query : KeyHash) : GatewayEvent → Option Nat
  | wrote commit key _ => if key = some query then some commit else none
  | _ => none

def succeeds (query : KeyHash) : GatewayEvent → Option Nat
  | answered commit key (.ok _) => if key = some query then some commit else none
  | _ => none

def writer : GatewayEvent → Option Nat
  | wrote commit _ _ => some commit
  | _ => none

def submission (number : Nat) : GatewayEvent → Option SourceDeltaRequest
  | submitted commit request => if commit = number then some request else none
  | _ => none

theorem writes_eq_some :
    event.writes query = some number ↔ ∃ written, event = wrote number (some query) written := by
  cases event <;> simp [writes]
  grind

theorem writes_of_writer (idle : event.writer = none) (query : KeyHash) :
    event.writes query = none := by
  cases event <;> simp_all [writes, writer]

theorem of_succeeds {answer : CommitAnswer}
    (success : (answered number carried answer).succeeds query ≠ none) :
    carried = some query ∧ ∃ count, answer = .ok count := by
  cases answer <;> simp_all [succeeds]

end GatewayEvent

open GatewayEvent (writer submission)

/-- The requests of a COMMIT that have reached the data plane. -/
def submissions (number : Nat) (history : List GatewayEvent) : List SourceDeltaRequest :=
  history.filterMap (GatewayEvent.submission number)

theorem submissions_concat (number : Nat) (history : List GatewayEvent) (event : GatewayEvent) :
    submissions number (history ++ [event]) =
      submissions number history ++ (event.submission number).toList := by
  unfold submissions
  cases same : event.submission number <;> simp [same]

theorem submissions_idle {happened : Option GatewayEvent}
    (unsent : ∀ event ∈ happened, event.submission number = none) (history : List GatewayEvent) :
    submissions number (history ++ happened.toList) = submissions number history := by
  cases happened with
  | none => simp
  | some event => rw [Option.toList_some, submissions_concat, unsent event rfl, Option.toList_none,
      append_nil]

/-- The COMMIT of a waiting connection, with the key it carries and the key it will record. -/
def CommitPhase.waits : CommitPhase → Option (Nat × Option KeyHash × Option KeyHash)
  | waiting commit carried _ key => some (commit, carried, key)
  | _ => none

/-- The COMMIT of a connection that holds the lock, with its key and the requests that are left. -/
def CommitPhase.refreshes : CommitPhase → Option (Nat × Option KeyHash × List SourceDeltaRequest)
  | refreshing commit carried _ requests => some (commit, carried, requests)
  | _ => none

theorem CommitPhase.refreshes_eq {affected : Nat} {requests : List SourceDeltaRequest}
    (isPhase : phase = .refreshing number carried affected requests) :
    phase.refreshes = some (number, carried, requests) := by
  rw [isPhase]
  rfl

theorem CommitPhase.pending_iff : phase.pending query = true ↔
    ∃ number request rest, phase.refreshes = some (number, some query, request :: rest) := by
  match phase with
  | idle => simp [pending, refreshes]
  | waiting _ _ _ _ => simp [pending, refreshes]
  | refreshing _ _ _ [] => simp [pending, refreshes]
  | refreshing _ _ _ (_ :: _) => simp [pending, refreshes]

/-- A COMMIT that has looked its key up and has not written. Nothing before the lookup wrote with
that key. -/
def LookedUp (history : List GatewayEvent) (number : Nat) (carried : Option KeyHash) : Prop :=
  (∃ earlier later, history = earlier ++ .looked number carried :: later ∧
    ∀ query, carried = some query → ∀ event ∈ earlier, event.writes query = none) ∧
  ∀ event ∈ history, event.writer ≠ some number

theorem LookedUp.append {history events : List GatewayEvent}
    (looked : LookedUp history number carried)
    (others : ∀ event ∈ events, event.writer ≠ some number) :
    LookedUp (history ++ events) number carried := by
  obtain ⟨⟨earlier, later, rfl, unwritten⟩, silent⟩ := looked
  refine ⟨⟨earlier, later ++ events, by simp, unwritten⟩, fun event mem => ?_⟩
  rcases mem_append.mp mem with old | new
  · exact silent event old
  · exact others event new

structure CommitCore.Tracked (catalog : Option ViewCatalog) (start : Store) (core : CommitCore) :
    Prop where
  stored : core.store = start.writeBatch (core.history.flatMap GatewayEvent.mutations)
  recorded : ∀ query, ∀ event ∈ core.history, event.writes query ≠ none →
    Recorded core.store query
  numbered : ∀ event ∈ core.history, ∀ number, event.writer = some number → number < core.commits
  waiting : ∀ conn number carried key, (core.phases conn).waits = some (number, carried, key) →
    number < core.commits ∧ LookedUp core.history number carried ∧
      ∀ query, carried = some query → key = some query
  distinct : ∀ conn other number first second, (core.phases conn).waits = some (number, first) →
    (core.phases other).waits = some (number, second) → conn = other
  justified : Justified (fun before event => ∀ number carried written,
    event = .wrote number carried written → LookedUp before number carried) core.history
  known : ∀ number, submissions number core.history ≠ [] →
    ∃ event ∈ core.history, event.writer = some number
  running : ∀ conn number carried requests,
    (core.phases conn).refreshes = some (number, carried, requests) →
    core.lock = some conn ∧ ∃ written, .wrote number carried written ∈ core.history ∧
      submissions number core.history ++ requests = written.requests catalog

namespace CommitCore

variable {core : CommitCore} {orderly steady : KeyHash → Prop}

/-- What a phase shows of the connections stays as it was where a connection takes a phase that
shows nothing. -/
theorem of_update {α : Type} {phases : ConnId → CommitPhase} {shows : CommitPhase → Option α}
    (left : shows phase = none) {other : ConnId} {shown : α}
    (isShown : shows (update phases conn phase other) = some shown) :
    other ≠ conn ∧ shows (phases other) = some shown := by
  by_cases same : other = conn
  · subst same
    rw [update_self, left] at isShown
    exact absurd isShown (by simp)
  · rw [update_of_ne same] at isShown
    exact ⟨same, isShown⟩

theorem shown_update {α : Type} {phases : ConnId → CommitPhase} {shows : CommitPhase → Option α}
    (hidden : shows (phases conn) = none) {other : ConnId} {shown : α}
    (isShown : shows (phases other) = some shown) :
    shows (update phases conn phase other) = some shown := by
  rwa [update_of_ne]
  rintro rfl
  simp [hidden] at isShown

/-- A record stays. -/
theorem Step.recorded (moves : Step catalog orderly steady core next) (query : KeyHash)
    (recorded : Recorded core.store query) : Recorded next.store query := by
  cases moves with
  | write conn number carried ops key written nowMs views waiting free batch fresh =>
    rw [batch]
    exact recorded_writeBatch (.inr recorded) _ _ _ _
  | store writes free =>
    unfold Recorded at recorded ⊢
    rwa [lookup_writeBatch_of_ne _ fun mutation mem => (writes.2 mutation mem query).symm]
  | _ => exact recorded

namespace Tracked

theorem wrote_unique (tracked : core.Tracked catalog start) {carried' : Option KeyHash}
    {written written' : WrittenCommit} (first : .wrote number carried written ∈ core.history)
    (second : .wrote number carried' written' ∈ core.history) :
    carried = carried' ∧ written = written' := by
  obtain ⟨before, after, history⟩ := append_of_mem first
  rw [history] at second
  rcases mem_append.mp second with earlier | notEarlier
  · exact absurd rfl ((tracked.justified before _ after history number carried written rfl).2 _
      earlier)
  · rcases mem_cons.mp notEarlier with same | later
    · exact ⟨(GatewayEvent.wrote.inj same).2.1.symm, (GatewayEvent.wrote.inj same).2.2.symm⟩
    · obtain ⟨between, rest, rfl⟩ := append_of_mem later
      rw [← cons_append, ← append_assoc] at history
      have silent := (tracked.justified _ _ rest history number carried' written' rfl).2
      exact absurd rfl (silent (.wrote number carried written) (by simp))

section

variable (tracked : core.Tracked catalog start)
include tracked

section

variable (event : Option GatewayEvent) (history : next.history = core.history ++ event.toList)
  (stores : next.store = core.store.writeBatch (event.toList.flatMap GatewayEvent.mutations))
  (keeps : ∀ query, Recorded core.store query → Recorded next.store query)
  (commits : core.commits ≤ next.commits) (waits : ∀ conn waiting,
    (next.phases conn).waits = some waiting → (core.phases conn).waits = some waiting)
include history stores keeps commits waits

/-- A step without a write, given what it means for the requests. -/
theorem unwritten (idle : ∀ happened ∈ event.toList, happened.writer = none)
    (known : ∀ number, submissions number next.history ≠ [] →
      ∃ event ∈ core.history, event.writer = some number)
    (running : ∀ conn number carried requests,
      (next.phases conn).refreshes = some (number, carried, requests) →
      next.lock = some conn ∧ ∃ written, .wrote number carried written ∈ core.history ∧
        submissions number next.history ++ requests = written.requests catalog) :
    next.Tracked catalog start := by
  have old : core.history ⊆ next.history := by
    rw [history]
    exact subset_append_left _ _
  constructor
  · rw [stores, history, flatMap_append, writeBatch_append, tracked.stored]
  · intro query event mem isWrite
    rw [history] at mem
    rcases mem_append.mp mem with old | new
    · exact keeps query (tracked.recorded query event old isWrite)
    · exact absurd (event.writes_of_writer (idle event new) query) isWrite
  · intro event mem number isWriter
    rw [history] at mem
    rcases mem_append.mp mem with old | new
    · exact (tracked.numbered event old number isWriter).trans_le commits
    · exact absurd isWriter (by simp [idle event new])
  · intro conn number carried key isWaiting
    obtain ⟨isOld, looked, kept⟩ := tracked.waiting conn number carried key (waits _ _ isWaiting)
    rw [history]
    exact ⟨isOld.trans_le commits, looked.append fun event mem => by simp [idle event mem], kept⟩
  · exact fun conn other number first second left right =>
      tracked.distinct conn other number first second (waits _ _ left) (waits _ _ right)
  · rw [history]
    refine tracked.justified.append fun event mem before number carried written isWrite => ?_
    have silent := idle event mem
    rw [isWrite] at silent
    exact absurd silent (by simp [writer])
  · intro number submitted
    obtain ⟨event, mem, isWriter⟩ := known number submitted
    exact ⟨event, old mem, isWriter⟩
  · intro conn number carried requests isRefreshing
    obtain ⟨holds, written, mem, split⟩ := running conn number carried requests isRefreshing
    exact ⟨holds, written, old mem, split⟩

theorem quiet (idle : ∀ happened ∈ event, happened.writer = none ∧
      ∀ number, happened.submission number = none)
    (refreshes : ∀ conn running, (next.phases conn).refreshes = some running →
      (core.phases conn).refreshes = some running ∧ next.lock = core.lock) :
    next.Tracked catalog start := by
  have same : ∀ number, submissions number next.history = submissions number core.history := by
    intro number
    rw [history, submissions_idle fun happened mem => (idle happened mem).2 number]
  refine tracked.unwritten event history stores keeps commits waits
    (by simpa using fun event mem => (idle event mem).1)
    (fun number submitted => tracked.known number (same number ▸ submitted)) ?_
  intro conn number carried requests isRefreshing
  obtain ⟨before, lock⟩ := refreshes conn _ isRefreshing
  rw [same, lock]
  exact tracked.running conn number carried requests before

end

theorem look (ops : List DmlOp) (idle : core.phases conn = .idle)
    (unrecorded : ∀ query, carried = some query → ¬ Recorded core.store query)
    (kept : ∀ query, carried = some query → key = some query) :
    CommitCore.Tracked catalog start { core with
      phases := update core.phases conn (.waiting core.commits carried ops key)
      commits := core.commits + 1
      history := core.history ++ [.looked core.commits carried] } := by
  have logged : CommitCore.Tracked catalog start { core with
      commits := core.commits + 1
      history := core.history ++ [.looked core.commits carried] } :=
    tracked.quiet (some _) rfl rfl (fun _ => id) (Nat.le_succ _) (fun _ _ => id)
      (by simp [writer, submission]) fun _ _ same => ⟨same, rfl⟩
  refine ⟨logged.stored, logged.recorded, logged.numbered, ?_, ?_, logged.justified, logged.known,
    fun other number carried requests isRefreshing => ?_⟩
  · intro other number otherCarried otherKey isWaiting
    by_cases same : other = conn
    · subst same
      simp only [update_self, waits, Option.some.injEq, Prod.mk.injEq] at isWaiting
      obtain ⟨rfl, rfl, rfl⟩ := isWaiting
      refine ⟨Nat.lt_succ_self _, ⟨⟨core.history, [], rfl, ?_⟩, ?_⟩, kept⟩
      · intro query isCarried event mem
        by_contra isWrite
        exact unrecorded query isCarried (tracked.recorded query event mem isWrite)
      · intro event mem isWriter
        rcases mem_append.mp mem with old | new
        · exact absurd (tracked.numbered event old _ isWriter) (lt_irrefl _)
        · rw [mem_singleton.mp new] at isWriter
          exact absurd isWriter (by simp [writer])
    · simp only [update_of_ne same] at isWaiting
      exact logged.waiting other number otherCarried otherKey isWaiting
  · intro left right number first second isLeft isRight
    have older : ∀ other, other ≠ conn → ∀ waiting,
        (core.phases other).waits = some (number, waiting) → number < core.commits :=
      fun other _ waiting isWaiting => (tracked.waiting other number _ _ isWaiting).1
    by_cases leftConn : left = conn <;> by_cases rightConn : right = conn
    · rw [leftConn, rightConn]
    · subst leftConn
      simp only [update_self, update_of_ne rightConn, waits,
        Option.some.injEq, Prod.mk.injEq] at isLeft isRight
      exact absurd (older right rightConn second isRight) (by omega)
    · subst rightConn
      simp only [update_self, update_of_ne leftConn, waits,
        Option.some.injEq, Prod.mk.injEq] at isLeft isRight
      exact absurd (older left leftConn first isLeft) (by omega)
    · simp only [update_of_ne leftConn, update_of_ne rightConn] at isLeft isRight
      exact tracked.distinct left right number first second isLeft isRight
  · exact logged.running other number carried requests (of_update rfl isRefreshing).2

theorem write {written : WrittenCommit} {nowMs : Nat} {views : OtherWrites}
    (waiting : core.phases conn = .waiting number carried ops key) (free : core.lock = none)
    (batch : written.batch = commitBatch written.ops key written.epoch nowMs views) :
    CommitCore.Tracked catalog start { core with
      store := core.store.writeBatch written.batch
      phases := update core.phases conn
        (.refreshing number carried written.ops.length (written.requests catalog))
      lock := some conn
      history := core.history ++ [.wrote number carried written] } := by
  have isWaiting : (core.phases conn).waits = some (number, carried, key) := by
    rw [waiting]
    rfl
  obtain ⟨isOld, looked, kept⟩ := tracked.waiting conn number carried key isWaiting
  have same : ∀ other, submissions other (core.history ++ [.wrote number carried written]) =
      submissions other core.history := by
    intro other
    rw [submissions_concat]
    exact append_nil _
  constructor
  · simp [GatewayEvent.mutations, writeBatch_append, tracked.stored]
  · intro query event mem isWrite
    rw [batch]
    rcases mem_append.mp mem with old | new
    · exact recorded_writeBatch (.inr (tracked.recorded query event old isWrite)) _ _ _ _
    · obtain ⟨writer, isWriter⟩ := Option.ne_none_iff_exists'.mp isWrite
      obtain ⟨_, isEvent⟩ := GatewayEvent.writes_eq_some.mp isWriter
      obtain ⟨-, isCarried, -⟩ := GatewayEvent.wrote.inj ((mem_singleton.mp new).symm.trans isEvent)
      exact recorded_writeBatch (.inl (kept query isCarried)) _ _ _ _
  · intro event mem writer isWriter
    rcases mem_append.mp mem with old | new
    · exact tracked.numbered event old writer isWriter
    · rw [mem_singleton.mp new] at isWriter
      exact Option.some.inj isWriter ▸ isOld
  · intro other otherNumber otherCarried otherKey otherWaiting
    obtain ⟨apart, otherOld⟩ := of_update rfl otherWaiting
    obtain ⟨isOther, otherLooked, otherKept⟩ :=
      tracked.waiting other otherNumber otherCarried otherKey otherOld
    refine ⟨isOther, otherLooked.append fun event mem isWriter => ?_, otherKept⟩
    -- Another connection waits with another number.
    rw [mem_singleton.mp mem] at isWriter
    rw [← Option.some.inj isWriter] at otherOld
    exact apart (tracked.distinct _ _ _ _ _ isWaiting otherOld).symm
  · intro first second firstNumber firstKeys secondKeys isFirst isSecond
    exact tracked.distinct first second firstNumber firstKeys secondKeys
      (of_update rfl isFirst).2 (of_update rfl isSecond).2
  · refine tracked.justified.concat fun writer writerCarried writerWritten isWrite => ?_
    obtain ⟨rfl, rfl, -⟩ := GatewayEvent.wrote.inj isWrite
    exact looked
  · intro other submitted
    rw [same] at submitted
    obtain ⟨event, mem, isWriter⟩ := tracked.known other submitted
    exact ⟨event, mem_append_left _ mem, isWriter⟩
  · intro other otherNumber otherCarried requests isRefreshing
    by_cases isConn : other = conn
    · subst isConn
      simp only [update_self, refreshes, Option.some.injEq, Prod.mk.injEq] at isRefreshing
      obtain ⟨rfl, rfl, rfl⟩ := isRefreshing
      have unsent : submissions number core.history = [] := by
        by_contra submitted
        obtain ⟨event, mem, isWriter⟩ := tracked.known number submitted
        exact looked.2 event mem isWriter
      exact ⟨rfl, written, by simp, by rw [same, unsent, nil_append]⟩
    · simp only [update_of_ne isConn] at isRefreshing
      have held := (tracked.running _ _ _ _ isRefreshing).1
      exact absurd (free.symm.trans held) (by simp)

theorem submit {affected : Nat} {request : SourceDeltaRequest} {rest : List SourceDeltaRequest}
    (isRefreshing : core.phases conn = .refreshing number carried affected (request :: rest)) :
    CommitCore.Tracked catalog start { core with
      phases := update core.phases conn (.refreshing number carried affected rest)
      history := core.history ++ [.submitted number request] } := by
  have before := refreshes_eq isRefreshing
  obtain ⟨holds, written, mem, split⟩ := tracked.running _ _ _ _ before
  have own : submissions number (core.history ++ [.submitted number request]) =
      submissions number core.history ++ [request] := by
    simp [submissions_concat, submission]
  refine tracked.unwritten (some (.submitted number request)) rfl rfl (fun _ => id) le_rfl
    (fun _ _ shown => (of_update rfl shown).2) (by simp [writer])
    (fun other submitted => ?_) fun other otherNumber otherCarried requests otherRefreshing => ?_
  · by_cases same : other = number
    · exact ⟨_, mem, same ▸ rfl⟩
    · rw [submissions_concat] at submitted
      exact tracked.known other (by simpa [submission, Ne.symm same] using submitted)
  · by_cases isConn : other = conn
    · subst isConn
      simp only [update_self, refreshes, Option.some.injEq, Prod.mk.injEq] at otherRefreshing
      obtain ⟨rfl, rfl, rfl⟩ := otherRefreshing
      exact ⟨holds, written, mem, by rw [own, append_assoc, singleton_append, split]⟩
    · simp only [update_of_ne isConn] at otherRefreshing
      have held := (tracked.running _ _ _ _ otherRefreshing).1
      exact absurd (Option.some.inj (held.symm.trans holds)) isConn

theorem step (moves : Step catalog orderly steady core next) : next.Tracked catalog start := by
  have keeps := moves.recorded
  cases moves with
  | answer carried answer found alone =>
    exact tracked.quiet (some _) rfl rfl keeps (Nat.le_succ _) (fun _ _ => id)
      (by simp [writer, submission]) fun _ _ same => ⟨same, rfl⟩
  | look conn carried ops key idle unrecorded kept => exact tracked.look ops idle unrecorded kept
  | refuse conn number carried ops key answer waiting free failed =>
    exact tracked.quiet (some _) rfl rfl keeps le_rfl (fun _ _ shown => (of_update rfl shown).2)
      (by simp [writer, submission]) fun _ _ shown => ⟨(of_update rfl shown).2, rfl⟩
  | write conn number carried ops key written nowMs views waiting free batch fresh =>
    exact tracked.write waiting free batch
  | submit conn number carried affected request rest refreshing => exact tracked.submit refreshing
  | leave conn number carried affected requests answer refreshing whole stayed =>
    refine tracked.quiet (answer.map (.answered number carried)) rfl ?_ keeps le_rfl
      (fun _ _ shown => (of_update rfl shown).2) ?_ fun other running shown => ?_
    · cases answer <;> rfl
    · simp [writer, submission]
    · -- Only the connection with the lock was refreshing.
      obtain ⟨apart, before⟩ := of_update rfl shown
      have held := (tracked.running other _ _ _ before).1
      have holds := (tracked.running conn number carried requests (refreshes_eq refreshing)).1
      exact absurd (Option.some.inj (held.symm.trans holds)) apart
  | giveUp conn number carried ops key waiting =>
    exact tracked.quiet none (by simp) rfl keeps le_rfl (fun _ _ shown => (of_update rfl shown).2)
      (by simp) fun _ _ shown => ⟨(of_update rfl shown).2, rfl⟩
  | store writes free =>
    exact tracked.quiet (some _) rfl (by simp [GatewayEvent.mutations]) keeps le_rfl
      (fun _ _ => id) (by simp [writer, submission]) fun _ _ same => ⟨same, rfl⟩

theorem steps (moves : Relation.ReflTransGen (Step catalog orderly steady) core next) :
    next.Tracked catalog start := by
  induction moves with
  | refl => exact tracked
  | tail _ moved ih => exact ih.step moved

end

end Tracked

/-- What steps of the core keep where they are orderly or steady for a key holds after every run in
which they are. -/
theorem holds_of_run {Holds : CommitCore → Prop} {Allowed : Gateway → GatewayStep → Prop}
    (preserve : ∀ state taken core next, core.Tracked catalog start → Allowed state taken →
      Step catalog (fun query => state.orderly query taken) (fun query => state.steady query taken)
        core next → Holds core → Holds next)
    {state : Gateway} {steps : List GatewayStep} (tracked : state.core.Tracked catalog start)
    (allowed : Throughout (Gateway.step catalog) Allowed state steps) (holds : Holds state.core) :
    (steps.foldl (Gateway.step catalog) state).core.Tracked catalog start ∧
      Holds (steps.foldl (Gateway.step catalog) state).core := by
  refine allowed.invariant
    (fun state : Gateway => state.core.Tracked catalog start ∧ Holds state.core) ⟨tracked, holds⟩ ?_
  rintro state taken ⟨tracked, holds⟩ isAllowed
  have moves := state.core_step catalog taken
  refine ⟨tracked.steps moves, ?_⟩
  generalize (state.step catalog taken).core = next at moves
  induction moves with
  | refl => exact holds
  | tail before moved ih => exact preserve state taken _ _ (tracked.steps before) isAllowed moved ih

end CommitCore

theorem Gateway.tracked_start (catalog : Option ViewCatalog) (db : ShardDb) :
    (Gateway.start db).core.Tracked catalog db.store :=
  ⟨rfl, by simp [start, core], by simp [start, core], by simp [start, core, waits],
    by simp [start, core, waits], .nil, by simp [submissions, start, core],
    by simp [start, core, refreshes]⟩

theorem Gateway.tracked_run (catalog : Option ViewCatalog) (db : ShardDb)
    (steps : List GatewayStep) : (run catalog db steps).core.Tracked catalog db.store :=
  foldlRecOn (motive := fun state : Gateway => state.core.Tracked catalog db.store) steps _
    (tracked_start catalog db) fun state tracked next _ => tracked.steps
      (state.core_step catalog next)

/-- A COMMIT writes only after a lookup of its key, before which nothing was written with that key;
and the record of a written key stays in the store. -/
theorem written_keys_recorded (catalog : Option ViewCatalog) (db : ShardDb)
    (steps : List GatewayStep) :
    let state := Gateway.run catalog db steps
    (∀ query, ∀ event ∈ state.history, event.writes query ≠ none →
      Recorded state.db.store query) ∧
    Justified (fun before event => ∀ number carried written,
      event = .wrote number carried written → LookedUp before number carried) state.history := by
  have tracked := tracked_run catalog db steps
  exact ⟨tracked.recorded, tracked.justified⟩

/-! ## Idempotent keys -/

/-- At most one COMMIT that carries a key applies its operations, and none does once another one has
returned success. -/
structure Idempotent (query : KeyHash) (history : List GatewayEvent) : Prop where
  once : history.Pairwise fun first second =>
    first.writes query = none ∨ second.writes query = none
  settled : history.Pairwise fun first second =>
    first.succeeds query = none ∨ second.writes query = none ∨
      first.succeeds query = second.writes query

theorem Idempotent.concat {history : List GatewayEvent} (idempotent : Idempotent query history)
    (fresh : event.writes query ≠ none → ∀ earlier ∈ history,
      earlier.writes query = none ∧ earlier.succeeds query = none) :
    Idempotent query (history ++ [event]) := by
  refine ⟨pairwise_append.mpr ⟨idempotent.once, pairwise_singleton _ _, ?_⟩,
    pairwise_append.mpr ⟨idempotent.settled, pairwise_singleton _ _, ?_⟩⟩
  all_goals
    intro earlier mem last isLast
    rw [mem_singleton.mp isLast]
    by_cases silent : event.writes query = none
    · simp [silent]
    · simp [fresh silent earlier mem]

/-- A key that was applied or answered with success is recorded. -/
structure CommitCore.Settled (query : KeyHash) (core : CommitCore) : Prop where
  succeeded : ∀ event ∈ core.history, event.succeeds query ≠ none → Recorded core.store query
  idempotent : Idempotent query core.history

namespace CommitCore

variable {core : CommitCore} {orderly steady : KeyHash → Prop}

theorem Settled.concat (settled : core.Settled query) (tracked : core.Tracked catalog start)
    (history : next.history = core.history ++ [event])
    (keeps : Recorded core.store query → Recorded next.store query)
    (fresh : event.writes query ≠ none → ¬ Recorded core.store query)
    (success : event.succeeds query ≠ none → Recorded next.store query) : next.Settled query := by
  refine ⟨fun happened mem isSuccess => ?_, ?_⟩
  · rw [history] at mem
    rcases mem_append.mp mem with old | new
    · exact keeps (settled.succeeded happened old isSuccess)
    · rw [mem_singleton.mp new] at isSuccess
      exact success isSuccess
  · rw [history]
    refine settled.idempotent.concat fun isWrite earlier mem => ⟨?_, ?_⟩
    · by_contra wrote
      exact fresh isWrite (tracked.recorded query earlier mem wrote)
    · by_contra succeeded
      exact fresh isWrite (settled.succeeded earlier mem succeeded)

theorem Settled.step (settled : core.Settled query) (tracked : core.Tracked catalog start)
    (isOrderly : orderly query) (moves : Step catalog orderly steady core next) :
    next.Settled query := by
  have keeps := moves.recorded query
  cases moves with
  | answer carried answer found alone =>
    refine settled.concat tracked rfl keeps nofun fun isSuccess => ?_
    obtain ⟨isCarried, count, isOk⟩ := GatewayEvent.of_succeeds isSuccess
    exact found query count isOrderly isCarried isOk
  | look conn carried ops key idle unrecorded kept =>
    exact settled.concat tracked rfl keeps nofun nofun
  | refuse conn number carried ops key answer waiting free failed =>
    refine settled.concat tracked rfl keeps nofun fun isSuccess => ?_
    obtain ⟨isCarried, count, isOk⟩ := GatewayEvent.of_succeeds isSuccess
    exact absurd isOk (failed query count isOrderly isCarried)
  | write conn number carried ops key written nowMs views waiting free batch fresh =>
    refine settled.concat tracked rfl keeps (fun isWrite => ?_) nofun
    obtain ⟨writer, isWriter⟩ := Option.ne_none_iff_exists'.mp isWrite
    obtain ⟨_, isEvent⟩ := GatewayEvent.writes_eq_some.mp isWriter
    exact fresh query isOrderly (GatewayEvent.wrote.inj isEvent).2.1
  | submit conn number carried affected request rest refreshing =>
    exact settled.concat tracked rfl keeps nofun nofun
  | leave conn number carried affected requests answer refreshing whole stayed =>
    cases answer with
    | none => exact ⟨by simpa using settled.succeeded, by simpa using settled.idempotent⟩
    | some answer =>
      refine settled.concat tracked rfl keeps nofun fun isSuccess => ?_
      -- The COMMIT that ends here has written, with the key it carries.
      obtain ⟨rfl, -⟩ := GatewayEvent.of_succeeds isSuccess
      obtain ⟨-, written, mem, -⟩ := tracked.running conn number (some query) requests
        (by rw [refreshing]; rfl)
      exact tracked.recorded query _ mem (by simp [GatewayEvent.writes])
  | giveUp conn number carried ops key waiting => exact ⟨settled.succeeded, settled.idempotent⟩
  | store writes free => exact settled.concat tracked rfl keeps nofun nofun

end CommitCore

/-- In every run whose steps are orderly for a key the key is idempotent; and the store is what the
history says was written, so that a COMMIT without a write changes nothing. -/
theorem commit_idempotent (catalog : Option ViewCatalog) (db : ShardDb) (steps : List GatewayStep)
    (query : KeyHash)
    (isOrderly : Throughout (Gateway.step catalog) (orderly query) (Gateway.start db) steps) :
    (Gateway.run catalog db steps).db.store = db.store.writeBatch
      ((Gateway.run catalog db steps).history.flatMap GatewayEvent.mutations) ∧
    Idempotent query (Gateway.run catalog db steps).history := by
  obtain ⟨tracked, settled⟩ := CommitCore.holds_of_run
    (fun _ _ _ _ tracked allowed moves settled =>
      CommitCore.Settled.step settled tracked allowed moves)
    (tracked_start catalog db) isOrderly ⟨by simp [start, core], .nil, .nil⟩
  exact ⟨tracked.stored, settled.idempotent⟩

/-! ### Sample runs -/

def sampleKey : KeyHash := Vector.replicate 16 7

def sampleInsert (row : UInt8) : DmlOp := .insert [0x74] [] [row] [row]

def calmWeather : CommitWeather where
  nowMs := 0
  recovery := none
  reads := fun _ => none
  views := .ok ⟨[], by simp⟩
  write := none
  rollback := none

def emptyDb : ShardDb := ⟨∅, 0, 0⟩

/-- A whole transaction of one operation, without others in between. -/
def transaction (conn : ConnId) (op : DmlOp) : List GatewayStep :=
  [.statement conn (.push op), .commit conn (Vector.replicate 16 9) fun _ => none,
    .apply conn calmWeather, .finish conn none]

/-- A COMMIT with a key, and its retry. -/
def repeatedRun : List GatewayStep :=
  .set 0 ⟨some sampleKey, none⟩ :: transaction 0 (sampleInsert 1) ++ transaction 0 (sampleInsert 1)

theorem commit_idempotent_repeated :
    Idempotent sampleKey (Gateway.run none emptyDb repeatedRun).history ∧
    (Gateway.run none emptyDb repeatedRun).history.countP (·.succeeds sampleKey |>.isSome) = 2 := by
  refine ⟨(commit_idempotent none emptyDb repeatedRun sampleKey ?_).2, by decide +kernel⟩
  refine ⟨trivial, trivial, fun _ empty => ?_, fun number ops key isWaiting => ?_, trivial, trivial,
    fun _ empty => ?_, fun number ops key isWaiting => ?_, trivial, trivial⟩
  · exact absurd empty (cons_ne_nil _ _)
  · obtain ⟨-, -, rfl, -⟩ := waiting.inj isWaiting
    refine ⟨?_, fun filtered => cons_ne_nil _ _ (Except.ok.inj filtered)⟩
    rintro ⟨bytes, found, -⟩
    cases found
  · exact absurd empty (cons_ne_nil _ _)
  · cases isWaiting

/-- Two connections look the same key up before either of them writes. -/
def concurrentRun : List GatewayStep :=
  [.set 0 ⟨some sampleKey, none⟩, .set 1 ⟨some sampleKey, none⟩,
    .statement 0 (.push (sampleInsert 1)), .statement 1 (.push (sampleInsert 2)),
    .commit 0 sampleKey fun _ => none, .commit 1 sampleKey fun _ => none,
    .apply 0 calmWeather, .finish 0 none, .apply 1 calmWeather, .finish 1 none]

/-- A COMMIT whose only insert is filtered out succeeds; after a delete its retry inserts the
row. -/
def filteredRun : List GatewayStep :=
  transaction 1 (sampleInsert 1) ++ [.set 0 ⟨some sampleKey, none⟩] ++ transaction 0
    (sampleInsert 1) ++
    transaction 1 (.delete [0x74] [1] (some [1])) ++ transaction 0 (sampleInsert 1)

/-- Both runs break the key: in the first both COMMITs write, in the second one writes after another
has returned success. -/
theorem idempotency_key_applied_again :
    ¬ Idempotent sampleKey (Gateway.run none emptyDb concurrentRun).history ∧
    ¬ Idempotent sampleKey (Gateway.run none emptyDb filteredRun).history := by
  refine ⟨fun idempotent => ?_, fun idempotent => ?_⟩
  · exact absurd idempotent.once (by decide +kernel)
  · exact absurd idempotent.settled (by decide +kernel)

end RockStream
