import RockStream.Gateway.Dml

/-!
Contract: reads of a view across shards (`rockstream-gateway/src/multi_shard_reader.rs`).

Every shard is scanned for its part of the view and hands over at most its share of the
limit. The shares are joined in the order of the shards and cut to the limit.

Owns: `MultiShardReader.scatterRead`, and how many of the stored rows it returns.

Does not own: shard pruning, partial aggregation, and a task of a shard that panics.
-/

namespace RockStream

open Lib

/-- The readers of the shards, all at one frontier, and the bound on rows held in memory. -/
structure MultiShardReader where
  shards : List ShardScan
  maxInFlightRows : Nat

def divCeil (dividend divisor : Nat) : Nat :=
  dividend / divisor + if 0 < dividend % divisor then 1 else 0

namespace MultiShardReader

def perShardLimit (reader : MultiShardReader) (limit : Nat) : Nat :=
  divCeil limit (max reader.shards.length 1)

def shardRows (shard : ShardScan) (viewName : Bytes) (perLimit : Option Nat) :
    Except GatewayFault (List Bytes) := do
  let kvs ← (shard (viewOutputPrefix viewName)).mapError .storage
  let rows := kvs.map Prod.snd
  pure (match perLimit with
    | some perLimit => rows.take perLimit
    | none => rows)

/-- `scatter_read`: the rows, and the value that the fill level is set to. -/
def scatterRead (reader : MultiShardReader) (viewName : Bytes) (limit : Option Nat) :
    Except GatewayFault (List Bytes × Nat) := do
  let shardRows ← reader.shards.mapM fun shard =>
    shardRows shard viewName (limit.map reader.perShardLimit)
  let merged := shardRows.flatten
  if reader.maxInFlightRows < merged.length then
    .error .resultSetTooLarge
  else
    pure (match limit with
      | some limit => merged.take limit
      | none => merged, merged.length)

/-! ## Shares -/

/-- The rows that are stored on the shards, and those within the shares. -/
def storedRows (stored : List (List (Bytes × Bytes))) : List Bytes :=
  stored.flatMap fun records => records.map Prod.snd

def sharedRows (share : Nat) (stored : List (List (Bytes × Bytes))) : List Bytes :=
  stored.flatMap fun records => (records.map Prod.snd).take share

theorem sharedRows_sublist (share : Nat) (stored : List (List (Bytes × Bytes))) :
    (sharedRows share stored).Sublist (storedRows stored) := by
  induction stored with
  | nil => exact .slnil
  | cons records stored ih =>
    exact (List.take_sublist _ _).append ih

/-- Nothing is cut off exactly when every shard stays within its share. -/
theorem length_sharedRows_eq_iff (share : Nat) (stored : List (List (Bytes × Bytes))) :
    (sharedRows share stored).length = (storedRows stored).length ↔
      ∀ records ∈ stored, records.length ≤ share := by
  induction stored with
  | nil => simp [sharedRows, storedRows]
  | cons records stored ih =>
    have shorter := (sharedRows_sublist share stored).length_le
    have here : (sharedRows share (records :: stored)).length =
        min share records.length + (sharedRows share stored).length := by
      simp [sharedRows, List.flatMap_cons]
    have whole : (storedRows (records :: stored)).length =
        records.length + (storedRows stored).length := by
      simp [storedRows, List.flatMap_cons]
    rw [here, whole, List.forall_mem_cons, ← ih]
    omega

theorem mapM_shardRows {reader : MultiShardReader} {viewName : Bytes}
    {stored : List (List (Bytes × Bytes))}
    (scanned : List.Forall₂ (fun shard records => shard (viewOutputPrefix viewName) = .ok records)
      reader.shards stored) (limit : Nat) : ∃ parts, reader.shards.mapM (fun shard =>
        shardRows shard viewName (some (reader.perShardLimit limit))) = .ok parts ∧
      parts.flatten = sharedRows (reader.perShardLimit limit) stored := by
  refine ⟨stored.map fun records => (records.map Prod.snd).take (reader.perShardLimit limit),
    Loop.mapM_eq_ok.mpr ?_, rfl⟩
  refine List.forall₂_map_right_iff.mpr (scanned.imp fun shard records isScan => ?_)
  rw [shardRows, isScan]
  rfl

/-- A read with a limit returns stored rows, none more often than it is stored. It returns as many
as there are up to the limit exactly when the shares reach the limit, or cut nothing off. -/
theorem scatterRead_limit_iff (reader : MultiShardReader) (viewName : Bytes) (limit : Nat)
    {stored : List (List (Bytes × Bytes))}
    (scanned : List.Forall₂ (fun shard records => shard (viewOutputPrefix viewName) = .ok records)
      reader.shards stored) (bounded : (storedRows stored).length ≤ reader.maxInFlightRows) :
    ∃ rows inFlight, reader.scatterRead viewName (some limit) = .ok (rows, inFlight) ∧
      rows.Subperm (storedRows stored) ∧ (rows.length = min limit (storedRows stored).length ↔
        limit ≤ (stored.map fun records => min records.length (reader.perShardLimit limit)).sum ∨
        ∀ records ∈ stored, records.length ≤ reader.perShardLimit limit) := by
  obtain ⟨parts, mapped, joined⟩ := mapM_shardRows scanned limit
  have sublist := sharedRows_sublist (reader.perShardLimit limit) stored
  have fits : ¬ reader.maxInFlightRows < parts.flatten.length := by
    rw [joined]
    exact not_lt.mpr (sublist.length_le.trans bounded)
  refine ⟨(sharedRows (reader.perShardLimit limit) stored).take limit,
    (sharedRows (reader.perShardLimit limit) stored).length, ?_, ?_, ?_⟩
  · unfold scatterRead
    rw [Option.map_some, mapped]
    show (if reader.maxInFlightRows < parts.flatten.length then _ else _) = _
    rw [if_neg fits, joined]
    rfl
  · exact ((List.take_sublist _ _).trans sublist).subperm
  · have counted : (stored.map fun records => min records.length (reader.perShardLimit limit)).sum =
          (sharedRows (reader.perShardLimit limit) stored).length := by
      simp [sharedRows, List.length_flatMap, min_comm]
    have shorter := sublist.length_le
    rw [counted, ← length_sharedRows_eq_iff, List.length_take]
    omega

/-! ## Two shards -/

def twoShards (first second : List Bytes) : MultiShardReader :=
  ⟨[fun start => .ok (first.map fun row => (start, row)),
    fun start => .ok (second.map fun row => (start, row))], 1000⟩

theorem scatterRead_limit_iff_sample : ∃ rows inFlight,
    (twoShards [[1], [2]] [[3]]).scatterRead [0x76] (some 2) = .ok (rows, inFlight) ∧
      rows.length = 2 := by
  obtain ⟨rows, inFlight, returned, _, exact⟩ :=
    scatterRead_limit_iff (twoShards [[1], [2]] [[3]]) [0x76] 2
      (.cons rfl (.cons rfl .nil)) (by decide)
  exact ⟨rows, inFlight, returned, exact.mpr (Or.inl (by decide))⟩

/-- Both rows are on one shard: a limit of two returns one of them. -/
theorem scatterRead_skewed :
    ((twoShards [[1], [2]] []).scatterRead [0x76] (some 2)).toOption = some ([[1]], 1) ∧
      (storedRows [[([0x76], [1]), ([0x76], [2])], []]).length = 2 := by
  decide

end MultiShardReader

end RockStream
