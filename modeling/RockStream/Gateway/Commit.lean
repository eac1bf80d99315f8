import RockStream.Gateway.Catalog
import RockStream.Gateway.WriteBuffer
import RockStream.ShardDb

/-!
Contract: COMMIT on the connections of a gateway (`handle_commit` and `commit_local_ops` of
`rockstream-gateway/src/server.rs`).

A COMMIT looks its idempotency key up, takes the buffered operations and waits for the commit
lock. Under the lock it filters the operations, writes them together with the key record and
the frontier, submits the source deltas of a distributed gateway and flushes. Only the part
under the lock excludes other COMMITs: the lookup does not.

Owns:
- the records of idempotency keys, `handleCommit`, and `commitLocalOps` up to the written batch;
- `Gateway`, the state that the connections share, with one step for every part of a COMMIT
  that another connection can come between, and the history of what happened.

Does not own: transactional notifications, the subscription log, the audit log, the freshness
token of a session, the state of local views, of which only the written mutations are seen,
and the expiry of key records, which nothing calls.
-/

namespace RockStream

open Lib

/-! ## Key records -/

/-- The first 16 bytes of the SHA-256 of the text of an idempotency key. -/
abbrev KeyHash := Vector UInt8 16

namespace ShardKeyEncoder

/-- `idempotency_key`: prefix byte, `IK`, shard, hash. -/
def idempotencyKey (shardId : UInt32) (keyHash : KeyHash) : Bytes :=
  0x02 :: 0x49 :: 0x4B :: (Bytes.beBytes 4 shardId.toNat ++ keyHash.toList)

end ShardKeyEncoder

open ShardKeyEncoder

def putIdempotencyKey (shardId : UInt32) (keyHash : KeyHash) (epoch timestampMs : Nat) :
    StateMutation :=
  .put (idempotencyKey shardId keyHash) (Bytes.beBytes 8 epoch ++ Bytes.beBytes 8 timestampMs)

def getIdempotencyEpoch (reader : ShardReader) (shardId : UInt32) (keyHash : KeyHash) :
    Except String (Option Nat) := do
  let record ← reader (idempotencyKey shardId keyHash)
  pure (record.bind fun bytes =>
    if 8 ≤ bytes.length then some (Bytes.ofBeBytes (bytes.take 8)) else none)

/-! ## The two functions -/

/-- The fields of a session that a COMMIT reads. -/
structure SessionState where
  idempotencyKey : Option KeyHash
  sourceEpochEnvelope : Option UInt64

/-- The answer of a COMMIT: the rows of its tag, if it has them, or an error. -/
abbrev CommitAnswer := Except GatewayFault (Option Nat)

/-- How `handle_commit` goes on: with an answer, or with the operations and the key for
`commit_local_ops`. -/
inductive CommitStart where
  | answered (answer : CommitAnswer)
  | staged (ops : List DmlOp) (key : Option KeyHash)

/-- The lookup of a key that the client set. A key that the server generates is not looked up. -/
def priorEpoch (reader : ShardReader) (session : SessionState) : Except String (Option Nat) :=
  match session.idempotencyKey with
  | some keyHash => getIdempotencyEpoch reader 0 keyHash
  | none => .ok none

def SessionState.recordedKey (session : SessionState) (generated : KeyHash) : Option KeyHash :=
  if session.idempotencyKey.isNone ∧ session.sourceEpochEnvelope.isNone then some generated
  else session.idempotencyKey

def handleCommit (shard : Option ShardReader) (session : SessionState) (generated : KeyHash)
    (buffer : WriteBuffer) : CommitStart × WriteBuffer :=
  if buffer.ops.isEmpty then (.answered (.ok none), buffer.clearSavepoints)
  else
    match shard with
    | none => (.answered (.ok none), buffer.clearSavepoints.clear)
    | some reader =>
      match priorEpoch reader session with
      | .error message => (.answered (.error (.storage message)), buffer.clearSavepoints)
      | .ok (some _) => (.answered (.ok none), buffer.clearSavepoints.clear)
      | .ok none =>
        (.staged buffer.clearSavepoints.drain.1 (session.recordedKey generated),
          buffer.clearSavepoints.drain.2)

/-- Mutations of other parts of the gateway: none of them is on a key record. -/
abbrev OtherWrites :=
  { batch : List StateMutation // ∀ mutation ∈ batch, ∀ keyHash,
    mutation.key ≠ idempotencyKey 0 keyHash }

/-- What the rest of the gateway does while a COMMIT holds the lock. -/
structure CommitWeather where
  nowMs : Nat
  /-- `recover_pending_views_locked`, before the commit. -/
  recovery : Option GatewayFault
  /-- The reads that fail. -/
  reads : Bytes → Option String
  /-- What refreshing the local views adds to the batch. -/
  views : Except GatewayFault OtherWrites
  /-- A write that fails. -/
  write : Option String
  /-- `recover_pending_views_locked`, after a failed refresh or write. -/
  rollback : Option GatewayFault

/-- Reads of a store of which some fail. -/
def Store.faultyReader (store : Store) (reads : Bytes → Option String) : ShardReader :=
  fun key => (reads key).elim (.ok (store.lookup key)) .error

def commitBatch (ops : List DmlOp) (key : Option KeyHash) (epoch nowMs : Nat)
    (views : OtherWrites) : List StateMutation :=
  appendDmlOps ops ++ (key.toList.map fun keyHash => putIdempotencyKey 0 keyHash epoch nowMs) ++
    [.put frontierKey (Bytes.beBytes 8 epoch)] ++ views.1

structure WrittenCommit where
  epoch : Nat
  ops : List DmlOp
  batch : List StateMutation

/-- The requests that follow a written batch: none without a data plane. -/
def WrittenCommit.requests (catalog : Option ViewCatalog) (written : WrittenCommit) :
    List SourceDeltaRequest :=
  catalog.elim [] fun catalog => catalog.requests written.epoch written.ops

/-- `commit_local_ops` up to the written batch; `none` when no operation is left. An epoch that was
allocated stays allocated when the commit fails. -/
def commitLocalOps (weather : CommitWeather) (ops : List DmlOp) (key : Option KeyHash)
    (db : ShardDb) : Except GatewayFault (Option WrittenCommit) × ShardDb :=
  match weather.recovery with
  | some fault => (.error fault, db)
  | none =>
    match committedDmlOps (db.store.faultyReader weather.reads) ops with
    | .error fault => (.error fault, db)
    | .ok [] => (.ok none, db)
    | .ok (op :: ops) =>
      match db.tryNextEpoch with
      | none => (.error .commitEpochExhausted, db)
      | some epoch =>
        let db := { db with allocatedEpoch := epoch }
        match weather.views with
        | .error fault => (.error (weather.rollback.getD fault), db)
        | .ok views =>
          match weather.write with
          | some message => (.error (weather.rollback.getD (.storage message)), db)
          | none =>
            let batch := commitBatch (op :: ops) key epoch weather.nowMs views
            match db.writeBatch batch with
            | .error fault => (.error (.panicked fault), db)
            | .ok db => (.ok (some ⟨epoch, op :: ops, batch⟩), db)

/-! ## The gateway -/

abbrev ConnId := Nat

/-- What happened. A COMMIT is known by its number; the key is the one its session carries. -/
inductive GatewayEvent where
  /-- The key of a COMMIT was not found, and its operations were taken. -/
  | looked (commit : Nat) (key : Option KeyHash)
  | wrote (commit : Nat) (key : Option KeyHash) (written : WrittenCommit)
  /-- A request has reached the data plane. -/
  | submitted (commit : Nat) (request : SourceDeltaRequest)
  | answered (commit : Nat) (key : Option KeyHash) (answer : CommitAnswer)
  /-- Another part of the gateway wrote a batch. -/
  | stored (writes : OtherWrites)

/-- Where the COMMIT of a connection is. -/
inductive CommitPhase where
  | idle
  /-- Waiting for the commit lock, with the key to record. -/
  | waiting (commit : Nat) (carried : Option KeyHash) (ops : List DmlOp) (key : Option KeyHash)
  /-- Holding the lock after the write, with the requests to submit. -/
  | refreshing (commit : Nat) (carried : Option KeyHash) (affected : Nat)
      (requests : List SourceDeltaRequest)

structure Gateway where
  db : ShardDb
  buffers : ConnId → WriteBuffer
  sessions : ConnId → SessionState
  phases : ConnId → CommitPhase
  /-- The connection that holds the commit lock. -/
  lock : Option ConnId
  /-- The number of COMMITs so far. -/
  commits : Nat
  history : List GatewayEvent

/-- What a connection, or another part of the gateway, does next. -/
inductive GatewayStep where
  /-- A buffered statement or a savepoint. -/
  | statement (conn : ConnId) (call : BufferCall)
  | rollback (conn : ConnId)
  /-- `SET rockstream.idempotency_key` and `SET rockstream.source_epoch`. -/
  | set (conn : ConnId) (session : SessionState)
  /-- `handle_commit` until it waits for the lock, with the key the server would generate. -/
  | commit (conn : ConnId) (generated : KeyHash) (reads : Bytes → Option String)
  /-- `commit_local_ops` from taking the lock to the written batch. -/
  | apply (conn : ConnId) (weather : CommitWeather)
  /-- One `submit_delta`; a failed one may have reached the data plane. -/
  | submit (conn : ConnId) (failure : Option (String × Bool))
  /-- The flush and the answer. -/
  | finish (conn : ConnId) (failure : Option String)
  /-- The connection is gone in the middle of a COMMIT. -/
  | cancel (conn : ConnId)
  /-- Another writer that takes the lock. -/
  | other (writes : OtherWrites)

namespace Gateway

def start (db : ShardDb) : Gateway where
  db := db
  buffers := fun _ => WriteBuffer.new
  sessions := fun _ => ⟨none, none⟩
  phases := fun _ => .idle
  lock := none
  commits := 0
  history := []

def record (state : Gateway) (events : List GatewayEvent) : Gateway :=
  { state with history := state.history ++ events }

def enter (state : Gateway) (conn : ConnId) (phase : CommitPhase) : Gateway :=
  { state with phases := Function.update state.phases conn phase }

def leave (state : Gateway) (conn : ConnId) : Gateway :=
  { state.enter conn .idle with lock := none }

def commit (state : Gateway) (conn : ConnId) (generated : KeyHash) (reads : Bytes → Option String) :
    Gateway :=
  let carried := (state.sessions conn).idempotencyKey
  let (next, buffer) := handleCommit (some (state.db.store.faultyReader reads))
    (state.sessions conn) generated (state.buffers conn)
  let started := { state with
    buffers := Function.update state.buffers conn buffer, commits := state.commits + 1 }
  match next with
  | .answered answer => started.record [.answered state.commits carried answer]
  | .staged ops key => (started.enter conn (.waiting state.commits carried ops key)).record
      [.looked state.commits carried]

/-- The commit of a waiting connection that takes the lock. -/
def apply (catalog : Option ViewCatalog) (state : Gateway) (conn : ConnId) (weather : CommitWeather)
    (number : Nat) (carried : Option KeyHash) (ops : List DmlOp) (key : Option KeyHash) : Gateway :=
  let (result, db) := commitLocalOps weather ops key state.db
  let state := { state with db := db }
  match result with
  | .error fault => (state.enter conn .idle).record [.answered number carried (.error fault)]
  | .ok none => (state.enter conn .idle).record [.answered number carried (.ok none)]
  | .ok (some written) =>
    ({ state.enter conn (.refreshing number carried written.ops.length
        (written.requests catalog)) with lock := some conn }).record
      [.wrote number carried written]

/-- A `submit_delta` and what follows from its outcome. -/
def submit (state : Gateway) (conn : ConnId) (number : Nat) (carried : Option KeyHash)
    (affected : Nat) (request : SourceDeltaRequest) (rest : List SourceDeltaRequest) :
    Option (String × Bool) → Gateway
  | none => (state.enter conn (.refreshing number carried affected rest)).record
      [.submitted number request]
  | some (error, arrived) => (state.leave conn).record
      ((if arrived then [.submitted number request] else []) ++
        [.answered number carried (.error (.queryTimeExecutionFailed
          (.distributedRefresh request.view error)))])

/-- One step. A step that cannot happen changes nothing. -/
def step (catalog : Option ViewCatalog) (state : Gateway) : GatewayStep → Gateway
  | .statement conn call =>
    match (state.buffers conn).call call with
    | .ok buffer => { state with buffers := Function.update state.buffers conn buffer }
    | .error _ => state
  | .rollback conn =>
    { state with buffers := Function.update state.buffers conn (state.buffers conn).clear }
  | .set conn session => { state with sessions := Function.update state.sessions conn session }
  | .commit conn generated reads =>
    match state.phases conn with
    | .idle => state.commit conn generated reads
    | _ => state
  | .apply conn weather =>
    match state.phases conn, state.lock with
    | .waiting number carried ops key, none =>
      state.apply catalog conn weather number carried ops key
    | _, _ => state
  | .submit conn failure =>
    match state.phases conn with
    | .refreshing number carried affected (request :: rest) =>
      state.submit conn number carried affected request rest failure
    | _ => state
  | .finish conn failure =>
    match state.phases conn with
    | .refreshing number carried affected [] => (state.leave conn).record
        [.answered number carried (failure.elim (.ok (some affected)) fun message =>
          .error (.storage message))]
    | _ => state
  | .cancel conn =>
    match state.phases conn with
    | .idle => state
    | .waiting _ _ _ _ => state.enter conn .idle
    | .refreshing _ _ _ _ => state.leave conn
  | .other writes =>
    match state.lock with
    | none =>
      { state with db := { state.db with store := state.db.store.writeBatch writes.1 } }.record
        [.stored writes]
    | some _ => state

def run (catalog : Option ViewCatalog) (db : ShardDb) (steps : List GatewayStep) : Gateway :=
  steps.foldl (step catalog) (start db)

end Gateway

end RockStream
