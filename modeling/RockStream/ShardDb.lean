import RockStream.Storage

/-!
Contract: the database of a shard with its epochs (`ShardDb` of `rockstream-storage`).

Owns: the epoch that is allocated next, and the check of `write_batch` that the frontier it
writes does not go back.

Does not own: when a written batch is durable.
-/

namespace RockStream

open Lib

/-- `frontier_key`: prefix byte and `frontier`. -/
def ShardKeyEncoder.frontierKey : Bytes := [0x06, 0x66, 0x72, 0x6F, 0x6E, 0x74, 0x69, 0x65, 0x72]

open ShardKeyEncoder

/-- The records of a shard with the epochs that were allocated and written. -/
structure ShardDb where
  store : Store
  allocatedEpoch : Nat
  lastEpoch : Nat

namespace ShardDb

def tryNextEpoch (db : ShardDb) : Option Nat :=
  let next := max db.allocatedEpoch db.lastEpoch + 1
  if next < 2 ^ 64 then some next else none

def frontierEpochs (batch : List StateMutation) : List Nat :=
  batch.filterMap fun mutation => match mutation with
    | .put key value =>
      if key = frontierKey ∧ value.length = 8 then some (Bytes.ofBeBytes value) else none
    | .delete _ => none

def writeBatch (db : ShardDb) (batch : List StateMutation) : Exec ShardDb :=
  if (frontierEpochs batch).all (db.lastEpoch ≤ ·) then
    .ok { db with
      store := db.store.writeBatch batch
      lastEpoch := (frontierEpochs batch).getLast?.elim db.lastEpoch (max db.lastEpoch) }
  else .error (.panicked "M1-S2: committed_epoch must be non-decreasing")

end ShardDb

end RockStream
