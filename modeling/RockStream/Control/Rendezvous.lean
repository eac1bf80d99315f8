import RockStream.Lib.Bytes

/-!
Contract: rendezvous placement of buckets (`rockstream-types/src/rendezvous.rs`).

Every virtual node of every shard has a hash for the bucket. The shard of the greatest hash gets the
bucket; where hashes are equal, the smaller shard id does.

Owns: the selection loop, and that its choice depends on the set of shards only.
-/

namespace RockStream

open Lib Lib.Bytes List

/-- A shard with a hash of one of its virtual nodes. -/
abbrev Candidate := UInt64 × UInt64

def fnv1a64 (data : Bytes) : UInt64 :=
  data.foldl (fun hash byte => (hash ^^^ byte.toUInt64) * 0x100000001b3) 0xcbf29ce484222325

def nodeHash (bucket shard : UInt64) (node : Nat) : UInt64 :=
  fnv1a64 (beBytes 8 bucket.toNat ++ beBytes 8 shard.toNat ++ beBytes 8 node)

/-- One turn of the inner loop. -/
def Candidate.challenge (best : Candidate) (shard hash : UInt64) : Candidate :=
  if best.2 < hash then (shard, hash)
  else if hash = best.2 ∧ shard < best.1 then (shard, best.2)
  else best

def rendezvousHash (bucket : UInt64) (shards : List UInt64) (virtualNodes : Nat) : Option UInt64 :=
  match shards with
  | [] => none
  | first :: _ =>
    some (shards.foldl (fun best shard => (range virtualNodes).foldl
      (fun (best : Candidate) node => best.challenge shard (nodeHash bucket shard node)) best)
      (first, 0)).1

namespace Candidate

variable {bucket : UInt64} {shards : List UInt64} {nodes : Nat}

/-- The candidates in the order of the loops. -/
def all (bucket : UInt64) (shards : List UInt64) (nodes : Nat) : List Candidate :=
  shards.flatMap fun shard => (range nodes).map fun node => (shard, nodeHash bucket shard node)

/-- Greater hashes rank higher, and smaller shards among equal hashes. -/
def rank (candidate : Candidate) : Nat ×ₗ Natᵒᵈ :=
  toLex (candidate.2.toNat, OrderDual.toDual candidate.1.toNat)

theorem rank_injective : Function.Injective rank := by
  intro left right same
  obtain ⟨sameHash, sameShard⟩ := Prod.ext_iff.mp (toLex.injective same)
  exact Prod.ext (UInt64.toNat_inj.mp sameShard) (UInt64.toNat_inj.mp sameHash)

theorem challenge_eq (best next : Candidate) :
    best.challenge next.1 next.2 = if rank best < rank next then next else best := by
  unfold challenge rank
  simp only [Prod.Lex.toLex_lt_toLex, OrderDual.toDual_lt_toDual, UInt64.lt_iff_toNat_lt,
    ← UInt64.toNat_inj]
  by_cases higher : best.2.toNat < next.2.toNat
  · rw [if_pos higher, if_pos (.inl higher)]
  rw [if_neg higher]
  by_cases equal : next.2.toNat = best.2.toNat ∧ next.1.toNat < best.1.toNat
  · rw [if_pos equal, if_pos (.inr ⟨equal.1.symm, equal.2⟩)]
    exact Prod.ext rfl (UInt64.toNat_inj.mp equal.1.symm)
  · rw [if_neg equal, if_neg (by omega)]

/-- The loop over a list of candidates takes one of the highest rank. -/
theorem argmax_eq (start : Candidate) (candidates : List Candidate) :
    (start :: candidates).argmax rank =
      some (candidates.foldl (fun best next => best.challenge next.1 next.2) start) := by
  rw [argmax, foldl_cons]
  induction candidates generalizing start with
  | nil => rfl
  | cons next candidates ih =>
    rw [foldl_cons, foldl_cons, challenge_eq]
    show candidates.foldl _ (if rank start < rank next then some next else some start) = _
    split_ifs
    · exact ih next
    · exact ih start

theorem mem_all {candidate : Candidate} : candidate ∈ all bucket shards nodes ↔
    candidate.1 ∈ shards ∧ ∃ node < nodes, nodeHash bucket candidate.1 node = candidate.2 := by
  simp only [all, mem_flatMap, mem_map, mem_range]
  constructor
  · rintro ⟨shard, mem, node, small, rfl⟩
    exact ⟨mem, node, small, rfl⟩
  · rintro ⟨mem, node, small, same⟩
    exact ⟨_, mem, node, small, Prod.ext rfl same⟩

/-- The candidate of the highest rank. -/
def Wins (bucket : UInt64) (shards : List UInt64) (nodes : Nat) (best : Candidate) : Prop :=
  best ∈ all bucket shards nodes ∧ ∀ other ∈ all bucket shards nodes, rank other ≤ rank best

theorem exists_wins (bucket first : UInt64) (rest : List UInt64) (positive : 0 < nodes) :
    ∃ best, Wins bucket (first :: rest) nodes best ∧
      rendezvousHash bucket (first :: rest) nodes = some best.1 := by
  have chosen := argmax_eq (first, 0) (all bucket (first :: rest) nodes)
  have returned : rendezvousHash bucket (first :: rest) nodes =
      some ((all bucket (first :: rest) nodes).foldl
        (fun (best next : Candidate) => best.challenge next.1 next.2) (first, 0)).1 := by
    unfold rendezvousHash all
    simp only [foldl_flatMap, foldl_map]
  generalize (all bucket (first :: rest) nodes).foldl _ _ = best at chosen returned
  have highest : ∀ other ∈ all bucket (first :: rest) nodes, rank other ≤ rank best :=
    fun other mem => le_of_mem_argmax (mem_cons_of_mem _ mem) chosen
  refine ⟨best, ⟨?_, highest⟩, returned⟩
  rcases mem_cons.mp (argmax_mem chosen) with rfl | mem
  · -- The start of the loop is the first shard with the least hash.
    have own : (first, nodeHash bucket first 0) ∈ all bucket (first :: rest) nodes :=
      mem_all.mpr ⟨mem_cons_self, 0, positive, rfl⟩
    have below : rank (first, 0) ≤ rank (first, nodeHash bucket first 0) := by
      rw [rank, rank, Prod.Lex.toLex_le_toLex]
      exact (Nat.eq_zero_or_pos _).elim (fun zero => .inr ⟨zero.symm, le_rfl⟩) .inl
    rwa [rank_injective (le_antisymm below (highest _ own))]
  · exact mem

theorem rendezvousHash_eq_some (positive : 0 < nodes) (shard : UInt64) :
    rendezvousHash bucket shards nodes = some shard ↔
      ∃ best, Wins bucket shards nodes best ∧ best.1 = shard := by
  cases shards with
  | nil => simp [rendezvousHash, Wins, all]
  | cons first rest =>
    obtain ⟨best, wins, returned⟩ := exists_wins bucket first rest positive
    rw [returned, Option.some_inj]
    refine ⟨fun same => ⟨best, wins, same⟩, ?_⟩
    rintro ⟨other, otherWins, same⟩
    rw [rank_injective (le_antisymm (otherWins.2 _ wins.1) (wins.2 _ otherWins.1)), same]

/-- The choice depends on the set of shards only, between two sets that differ by one shard it
differs only where that shard is chosen, and of some shards one is chosen. -/
theorem rendezvous_stable (bucket : UInt64) (nodes : Nat) (positive : 0 < nodes) :
    (∀ shards others, (∀ shard, shard ∈ shards ↔ shard ∈ others) →
      rendezvousHash bucket shards nodes = rendezvousHash bucket others nodes) ∧
    (∀ fewer more added, (∀ shard, shard ∈ more ↔ shard = added ∨ shard ∈ fewer) →
      rendezvousHash bucket more nodes = some added ∨
      rendezvousHash bucket more nodes = rendezvousHash bucket fewer nodes) ∧
    ∀ shards, shards ≠ [] → ∃ shard ∈ shards, rendezvousHash bucket shards nodes = some shard := by
  refine ⟨?_, ?_, ?_⟩
  · intro shards others same
    refine Option.ext fun shard => ?_
    simp only [rendezvousHash_eq_some positive, Wins, mem_all, same]
  · intro fewer more added grown
    obtain ⟨first, rest, rfl⟩ :=
      exists_cons_of_ne_nil (ne_nil_of_mem ((grown added).mpr (.inl rfl)))
    obtain ⟨best, ⟨listed, highest⟩, returned⟩ := exists_wins bucket first rest positive
    obtain ⟨mem, hashed⟩ := mem_all.mp listed
    rw [returned]
    rcases (grown best.1).mp mem with isAdded | old
    · exact .inl (congrArg some isAdded)
    · refine .inr ((rendezvousHash_eq_some positive _).mpr
        ⟨best, ⟨mem_all.mpr ⟨old, hashed⟩, ?_⟩, rfl⟩).symm
      intro other otherListed
      obtain ⟨otherMem, otherHashed⟩ := mem_all.mp otherListed
      exact highest other (mem_all.mpr ⟨(grown other.1).mpr (.inr otherMem), otherHashed⟩)
  · intro shards some
    obtain ⟨first, rest, rfl⟩ := exists_cons_of_ne_nil some
    obtain ⟨best, wins, returned⟩ := exists_wins bucket first rest positive
    exact ⟨best.1, (mem_all.mp wins.1).1, returned⟩

theorem rendezvous_stable_sample : rendezvousHash 42 [1, 2, 3] 2 = some 1 ∨
      rendezvousHash 42 [1, 2, 3] 2 = rendezvousHash 42 [2, 3] 2 :=
  (rendezvous_stable 42 2 (by decide)).2.1 [2, 3] [1, 2, 3] 1 (by simp)

end Candidate

end RockStream
