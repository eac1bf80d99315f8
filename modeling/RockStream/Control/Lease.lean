import RockStream.Lib.Bytes
import RockStream.Lib.HashMap

/-!
Contract: shard leases of the control plane (`ShardManager` of `rockstream-control/src/shard.rs`,
and `control_leader_epoch` of `raft.rs`).

Every call holds the lock of the manager, so a call is one step. A failed assertion unwinds and
changes nothing.

Owns: `ShardManager` and its calls; that tokens go up where epochs and restored tables do; that
without a restore a token that is no longer valid stays so; which terms fit into a token.

Does not own: the clock and the decay of heat.
-/

namespace RockStream

open Lib List

structure LeaseHeatHint where
  hotKeyPrefixes : List Bytes
  hotSstIds : List String
  hotBlockRanges : List (Nat × Nat)
  expectedReadRate : Nat
deriving DecidableEq, Inhabited

def LeaseHeatHint.bounded (heat : LeaseHeatHint) : LeaseHeatHint :=
  { heat with
    hotKeyPrefixes := heat.hotKeyPrefixes.take 64
    hotSstIds := heat.hotSstIds.take 64
    hotBlockRanges := heat.hotBlockRanges.take 64 }

structure ShardLease where
  shardId : Nat
  workerId : Nat
  leaseToken : Nat
  acquiredAtMs : Nat
  heatHint : LeaseHeatHint
deriving DecidableEq

/-- The table behind the lock, and a snapshot of it. -/
structure ShardManager where
  leases : HashMap Nat ShardLease
  nextToken : Nat
  leaderEpoch : Nat

open ShardManager

/-- A call. `changeHeat` stands for `update_heat` and `decay_heat`. -/
inductive LeaseCall where
  | setLeaderEpoch (epoch : Nat)
  | acquire (shardId workerId nowMs : Nat) (heat : LeaseHeatHint)
  | forceAcquire (shardId workerId nowMs : Nat) (heat : Option LeaseHeatHint)
  | transferIfOwner (expected : ShardLease) (workerId nowMs : Nat)
  | changeHeat (shardId : Nat) (change : LeaseHeatHint → LeaseHeatHint)
  | release (shardId leaseToken : Nat)
  | releaseWorker (workerId : Nat)
  | restore (snapshot : ShardManager)

inductive LeaseAnswer where
  | granted (lease : ShardLease) (evicted : Option Nat)
  | alreadyLeased (shardId holder : Nat)
  | changed (anything : Bool)
  | freed (shardIds : List Nat)
  | panicked

/-- `control_leader_epoch`, which asserts that the node id fits into 16 bits. -/
def controlLeaderEpoch (term leaderId : Nat) : Option Nat :=
  if leaderId < 2 ^ 16 then some ((term <<< 16) % 2 ^ 64 ||| (leaderId &&& 0xFFFF)) else none

namespace ShardManager

def new : ShardManager := ⟨∅, 1, 0⟩

variable (manager : ShardManager)

/-- The epoch in the high half, the counter in the low half. -/
def token : Nat :=
  (manager.leaderEpoch <<< 32) % 2 ^ 64 ||| manager.nextToken

/-- `mint_token`, which asserts that the counter fits into its half. -/
def mintToken : Option (Nat × ShardManager) :=
  if manager.nextToken < 2 ^ 32 then
    some (manager.token, { manager with nextToken := manager.nextToken + 1 })
  else none

/-- `set_leader_epoch`, which asserts that the epoch fits into its half. -/
def setLeaderEpoch (epoch : Nat) : Option ShardManager :=
  if epoch < 2 ^ 32 then some { manager with leaderEpoch := epoch } else none

def grant (shardId workerId nowMs : Nat) (heat : LeaseHeatHint)
    (evicted : Option Nat) : LeaseAnswer × ShardManager :=
  match manager.mintToken with
  | none => (.panicked, manager)
  | some (token, minted) =>
    let lease : ShardLease := ⟨shardId, workerId, token, nowMs, heat.bounded⟩
    (.granted lease evicted, { minted with leases := minted.leases.insert shardId lease })

def isValidWriter (shardId token : Nat) : Bool :=
  (manager.leases.lookup shardId).any (·.leaseToken = token)

def call : LeaseCall → LeaseAnswer × ShardManager
  | .setLeaderEpoch epoch =>
    match manager.setLeaderEpoch epoch with
    | some next => (.changed true, next)
    | none => (.panicked, manager)
  | .acquire shardId workerId nowMs heat =>
    match manager.leases.lookup shardId with
    | none => manager.grant shardId workerId nowMs heat none
    | some existing =>
      if existing.workerId ≠ workerId then (.alreadyLeased shardId existing.workerId, manager)
      else manager.grant shardId workerId nowMs existing.heatHint none
  | .forceAcquire shardId workerId nowMs heat =>
    let held := manager.leases.lookup shardId
    manager.grant shardId workerId nowMs (heat.getD ((held.map ShardLease.heatHint).getD default))
      (held.map ShardLease.workerId)
  | .transferIfOwner expected workerId nowMs =>
    if manager.leases.lookup expected.shardId = some expected then
      manager.grant expected.shardId workerId nowMs expected.heatHint none
    else (.changed false, manager)
  | .changeHeat shardId change =>
    match manager.leases.lookup shardId with
    | none => (.changed false, manager)
    | some lease => (.changed true, { manager with
        leases := manager.leases.insert shardId { lease with heatHint := change lease.heatHint } })
  | .release shardId leaseToken =>
    if manager.isValidWriter shardId leaseToken then
      (.changed true, { manager with leases := manager.leases.erase shardId })
    else (.changed false, manager)
  | .releaseWorker workerId =>
    (.freed ((manager.leases.toPairs.filter (·.2.workerId = workerId)).map Prod.fst),
      { manager with leases := manager.leases.filterMap fun lease =>
          if lease.workerId = workerId then none else some lease })
  | .restore snapshot => (.changed true, snapshot)

def run (calls : List LeaseCall) : ShardManager :=
  calls.foldl (fun current call => (current.call call).2) manager

end ShardManager

def LeaseAnswer.minted : LeaseAnswer → List (Nat × Nat)
  | .granted lease _ => [(lease.shardId, lease.leaseToken)]
  | _ => []

namespace ShardManager

/-- The tokens that some calls mint, in order, with their shards. -/
def minted (manager : ShardManager) : List LeaseCall → List (Nat × Nat)
  | [] => []
  | call :: rest => (manager.call call).1.minted ++ (manager.call call).2.minted rest

/-- Later tokens of a shard are greater. -/
def Increasing (tokens : List (Nat × Nat)) : Prop :=
  tokens.Pairwise fun earlier later => earlier.1 = later.1 → earlier.2 < later.2

/-! ## What a call does -/

/-- What a call mints and what it leaves: leases keep their tokens or go, or one lease gets the next
token, unless the call sets the epoch or restores. -/
inductive Moves (manager : ShardManager) : LeaseCall → List (Nat × Nat) → ShardManager → Prop where
  | keep {call : LeaseCall} {next : ShardManager} (counter : next.nextToken = manager.nextToken)
      (epoch : next.leaderEpoch = manager.leaderEpoch)
      (leases : ∀ shardId token, next.isValidWriter shardId token = true →
        manager.isValidWriter shardId token = true) : Moves manager call [] next
  | mint {call : LeaseCall} (shardId : Nat) (lease : ShardLease) (fits : manager.nextToken < 2 ^ 32)
      (isToken : lease.leaseToken = manager.token) : Moves manager call [(shardId, manager.token)]
        { manager with
          leases := manager.leases.insert shardId lease
          nextToken := manager.nextToken + 1 }
  | epoch {epoch : Nat} (fits : epoch < 2 ^ 32) :
      Moves manager (.setLeaderEpoch epoch) [] { manager with leaderEpoch := epoch }
  | restore (snapshot : ShardManager) : Moves manager (.restore snapshot) [] snapshot

variable {manager : ShardManager} {call : LeaseCall} {shardId : Nat}

theorem moves_self : Moves manager call [] manager := .keep rfl rfl fun _ _ => id

theorem grant_moves (workerId nowMs : Nat) (heat : LeaseHeatHint) (evicted : Option Nat) :
    Moves manager call (manager.grant shardId workerId nowMs heat evicted).1.minted
      (manager.grant shardId workerId nowMs heat evicted).2 := by
  unfold grant mintToken
  by_cases fits : manager.nextToken < 2 ^ 32
  · rw [if_pos fits]
    exact .mint shardId _ fits rfl
  · rw [if_neg fits]
    exact moves_self

theorem call_moves (manager : ShardManager) (call : LeaseCall) :
    Moves manager call (manager.call call).1.minted (manager.call call).2 := by
  cases call with
  | setLeaderEpoch epoch =>
    rw [call, setLeaderEpoch]
    by_cases fits : epoch < 2 ^ 32
    · rw [if_pos fits]
      exact .epoch fits
    · rw [if_neg fits]
      exact moves_self
  | restore snapshot => exact .restore snapshot
  | acquire shardId workerId nowMs heat =>
    rw [call]
    split
    · exact grant_moves ..
    · split
      · exact moves_self
      · exact grant_moves ..
  | forceAcquire shardId workerId nowMs heat => exact grant_moves ..
  | transferIfOwner expected workerId nowMs =>
    rw [call]
    split
    · exact grant_moves ..
    · exact moves_self
  | changeHeat shardId change =>
    rw [call]
    split
    · exact moves_self
    · rename_i lease found
      refine .keep rfl rfl fun query token valid => ?_
      unfold isValidWriter at valid ⊢
      rw [HashMap.lookup_insert_eq] at valid
      split at valid
      · rename_i same
        rwa [same, found]
      · exact valid
  | release shardId leaseToken =>
    rw [call]
    split
    · refine .keep rfl rfl fun query token valid => ?_
      unfold isValidWriter at valid ⊢
      rw [HashMap.lookup_erase_eq] at valid
      split at valid
      · cases valid
      · exact valid
    · exact moves_self
  | releaseWorker workerId =>
    refine .keep rfl rfl fun query token valid => ?_
    unfold isValidWriter at valid ⊢
    simp only [call, HashMap.lookup_filterMap] at valid
    cases found : manager.leases.lookup query with
    | none => simp [found] at valid
    | some lease =>
      by_cases own : lease.workerId = workerId
      · simp [found, own] at valid
      · simpa [found, own] using valid

theorem token_eq (fits : manager.nextToken < 2 ^ 32) :
    manager.token = manager.leaderEpoch % 2 ^ 32 * 2 ^ 32 + manager.nextToken := by
  rw [token, Nat.shiftLeft_eq, show 2 ^ 64 = 2 ^ 32 * 2 ^ 32 by rfl, Nat.mul_mod_mul_right,
    ← Nat.shiftLeft_eq, ← Nat.shiftLeft_add_eq_or_of_lt fits]

/-! ## Tokens go up -/

/-- Where the next token stands among all tokens. -/
def fence (manager : ShardManager) : Nat := manager.leaderEpoch * 2 ^ 32 + manager.nextToken

/-- The epoch does not go down, and a restored table is not behind. -/
def forward (manager : ShardManager) : LeaseCall → Bool
  | .setLeaderEpoch epoch => manager.leaderEpoch ≤ epoch
  | .restore snapshot => snapshot.leaderEpoch < 2 ^ 32 && manager.fence ≤ snapshot.fence
  | _ => true

def forwardRun (manager : ShardManager) : List LeaseCall → Bool
  | [] => true
  | call :: rest => manager.forward call && (manager.call call).2.forwardRun rest

theorem minted_forward (calls : List LeaseCall) (small : manager.leaderEpoch < 2 ^ 32)
    (forward : manager.forwardRun calls = true) :
    (∀ minted ∈ manager.minted calls, manager.fence ≤ minted.2) ∧
      (manager.minted calls).Pairwise fun earlier later => earlier.2 < later.2 := by
  induction calls generalizing manager with
  | nil => exact ⟨nofun, .nil⟩
  | cons call rest ih =>
    rw [forwardRun, Bool.and_eq_true] at forward
    obtain ⟨ahead, onward⟩ := forward
    rw [minted]
    have moves := call_moves manager call
    generalize (manager.call call).1.minted = tokens, (manager.call call).2 = next at moves onward ⊢
    cases moves with
    | keep counter epoch leases =>
      obtain ⟨above, ordered⟩ := ih (epoch ▸ small) onward
      rw [fence, counter, epoch] at above
      exact ⟨above, ordered⟩
    | mint shardId lease fits isToken =>
      obtain ⟨above, ordered⟩ := ih (by exact small) onward
      have isFence : manager.token = manager.fence := by
        rw [token_eq fits, Nat.mod_eq_of_lt small, fence]
      rw [isFence, singleton_append]
      refine ⟨forall_mem_cons.mpr ⟨le_rfl, fun minted mem => ?_⟩,
        pairwise_cons.mpr ⟨fun minted mem => Nat.lt_of_succ_le (above minted mem), ordered⟩⟩
      exact (Nat.le_succ _).trans (above minted mem)
    | epoch fits =>
      obtain ⟨above, ordered⟩ := ih (by exact fits) onward
      refine ⟨fun minted mem => le_trans ?_ (above minted mem), ordered⟩
      exact Nat.add_le_add_right (Nat.mul_le_mul_right _ (of_decide_eq_true ahead)) _
    | restore snapshot =>
      obtain ⟨fits, behind⟩ := Bool.and_eq_true_iff.mp ahead
      obtain ⟨above, ordered⟩ := ih (of_decide_eq_true fits) onward
      exact ⟨fun minted mem => (of_decide_eq_true behind).trans (above minted mem), ordered⟩

/-- Where epochs do not go down and restored tables are not behind, each token of a shard is greater
than all before it. -/
theorem minted_increasing (calls : List LeaseCall) (forward : new.forwardRun calls = true) :
    Increasing (new.minted calls) := by
  refine (minted_forward calls (by decide) forward).2.imp ?_
  intro earlier later less _
  exact less

theorem minted_increasing_sample : Increasing (new.minted [.acquire 1 1 0 default,
    .setLeaderEpoch 3, .acquire 1 1 0 default]) :=
  minted_increasing _ (by decide)

/-- An epoch that goes down takes the tokens with it, and so does an old table. -/
theorem minted_not_increasing :
    ¬ Increasing (new.minted [.setLeaderEpoch 5, .acquire 1 1 0 default, .setLeaderEpoch 3,
      .acquire 1 1 0 default]) ∧
    ¬ Increasing (new.minted [.acquire 1 1 0 default, .restore new, .acquire 1 1 0 default]) := by
  unfold Increasing
  decide

/-! ## One valid writer -/

theorem call_valid (manager : ShardManager) (kept : ∀ snapshot, call ≠ .restore snapshot) :
    manager.nextToken ≤ (manager.call call).2.nextToken ∧
      ∀ shardId token, (manager.call call).2.isValidWriter shardId token = true →
        manager.isValidWriter shardId token = true ∨
          token % 2 ^ 32 = manager.nextToken ∧
            manager.nextToken < (manager.call call).2.nextToken := by
  have moves := call_moves manager call
  generalize (manager.call call).1.minted = tokens, (manager.call call).2 = next at moves ⊢
  cases moves with
  | keep counter epoch leases => exact ⟨counter.ge,
    fun shardId token => .inl ∘ leases shardId token⟩
  | mint shardId lease fits isToken =>
    refine ⟨Nat.le_succ _, fun query token valid => ?_⟩
    unfold isValidWriter at valid
    rw [HashMap.lookup_insert_eq] at valid
    split at valid
    · refine .inr ⟨?_, Nat.lt_succ_self _⟩
      rw [← of_decide_eq_true valid, isToken, token_eq fits]
      omega
    · exact .inl valid
  | epoch fits => exact ⟨le_rfl, fun _ _ => .inl⟩
  | restore => exact absurd rfl (kept _)

theorem run_valid (manager : ShardManager) {calls : List LeaseCall}
    (kept : ∀ snapshot, .restore snapshot ∉ calls) :
    manager.nextToken ≤ (manager.run calls).nextToken ∧
      ∀ shardId token, (manager.run calls).isValidWriter shardId token = true →
        manager.isValidWriter shardId token = true ∨
          manager.nextToken ≤ token % 2 ^ 32 ∧ token % 2 ^ 32 < (manager.run calls).nextToken := by
  induction calls generalizing manager with
  | nil => exact ⟨le_rfl, fun _ _ => .inl⟩
  | cons call rest ih =>
    obtain ⟨grows, valid⟩ :=
      manager.call_valid fun snapshot same => kept snapshot (same ▸ mem_cons_self)
    obtain ⟨growsOn, validOn⟩ := ih (manager.call call).2 fun snapshot mem =>
      kept snapshot (mem_cons_of_mem _ mem)
    refine ⟨grows.trans growsOn, fun shardId token now => ?_⟩
    rcases validOn shardId token now with next | ⟨above, below⟩
    · rcases valid shardId token next with before | ⟨isNext, less⟩
      · exact .inl before
      · exact .inr ⟨isNext.ge, isNext ▸ less.trans_le growsOn⟩
    · exact .inr ⟨grows.trans above, below⟩

/-- Without a restore a shard has at most one valid token, and one that is no longer valid stays
so. -/
theorem single_valid_writer (calls later latest : List LeaseCall)
    (kept : ∀ snapshot, .restore snapshot ∉ calls ++ later ++ latest) (shardId token : Nat) :
    (∀ other, (new.run calls).isValidWriter shardId token = true →
      (new.run calls).isValidWriter shardId other = true → token = other) ∧
    ((new.run calls).isValidWriter shardId token = true →
      (new.run (calls ++ later)).isValidWriter shardId token = false →
        (new.run (calls ++ later ++ latest)).isValidWriter shardId token = false) := by
  simp only [mem_append, not_or] at kept
  constructor
  · intro other isToken isOther
    unfold isValidWriter at isToken isOther
    cases found : (new.run calls).leases.lookup shardId with
    | none => simp [found] at isToken
    | some lease =>
      rw [found] at isToken isOther
      exact (of_decide_eq_true isToken).symm.trans (of_decide_eq_true isOther)
  · intro valid ended
    have parts : ∀ first second, new.run (first ++ second) = (new.run first).run second :=
      fun first second => foldl_append
    rw [parts] at ended ⊢
    rw [parts]
    obtain ⟨_, minted⟩ := new.run_valid fun snapshot => (kept snapshot).1.1
    obtain ⟨grows, _⟩ := (new.run calls).run_valid fun snapshot => (kept snapshot).1.2
    obtain ⟨_, again⟩ := ((new.run calls).run later).run_valid fun snapshot => (kept snapshot).2
    by_contra back
    rcases again shardId token (Bool.not_eq_false _ ▸ back) with before | ⟨above, _⟩
    · simp [ended] at before
    · rcases minted shardId token valid with fresh | ⟨_, below⟩
      · cases fresh
      · omega

theorem single_valid_writer_sample : (new.run [.acquire 1 7 0 default]).isValidWriter 1 1 = true ∧
      (new.run [.acquire 1 7 0 default, .release 1 1, .acquire 1 7 0 default]).isValidWriter 1 1 =
        false :=
  ⟨by decide, (single_valid_writer [.acquire 1 7 0 default] [.release 1 1] [.acquire 1 7 0 default]
    (by simp) 1 1).2 (by decide) (by decide)⟩

/-! ## Terms -/

/-- A token that a leader mints in its term. -/
def tokenUnder (manager : ShardManager) (term leaderId : Nat) : Option Nat := do
  let ready ← (controlLeaderEpoch term leaderId).bind manager.setLeaderEpoch
  let minted ← ready.mintToken
  pure minted.1

theorem controlLeaderEpoch_eq {term leaderId : Nat} (bounded : term < 2 ^ 48)
    (fits : leaderId < 2 ^ 16) :
    controlLeaderEpoch term leaderId = some (term * 2 ^ 16 + leaderId) := by
  have inside : term * 2 ^ 16 < 2 ^ 64 := by omega
  rw [controlLeaderEpoch, if_pos fits, show 0xFFFF = 2 ^ 16 - 1 by rfl,
    Nat.and_two_pow_sub_one_eq_mod, Nat.mod_eq_of_lt fits, Nat.shiftLeft_eq,
    Nat.mod_eq_of_lt inside, ← Nat.shiftLeft_eq,
    ← Nat.shiftLeft_add_eq_or_of_lt fits]

theorem accepted_iff {term leaderId : Nat} (bounded : term < 2 ^ 48) (ready : ShardManager) :
    (controlLeaderEpoch term leaderId).bind manager.setLeaderEpoch = some ready ↔
      term < 2 ^ 16 ∧ leaderId < 2 ^ 16 ∧
        ready = { manager with leaderEpoch := term * 2 ^ 16 + leaderId } := by
  by_cases fits : leaderId < 2 ^ 16
  · rw [controlLeaderEpoch_eq bounded fits, Option.bind_some, setLeaderEpoch]
    by_cases small : term < 2 ^ 16
    · rw [if_pos (by omega), Option.some.injEq, eq_comm]
      exact ⟨fun same => ⟨small, fits, same⟩, fun accepted => accepted.2.2⟩
    · rw [if_neg (by omega)]
      exact ⟨nofun, fun accepted => absurd accepted.1 small⟩
  · rw [controlLeaderEpoch, if_neg fits]
    exact ⟨nofun, fun accepted => absurd accepted.2.1 fits⟩

/-- The epoch of a term and a node is accepted exactly where both fit into 16 bits, and then a later
term mints greater tokens. -/
theorem leaderEpoch_accepted_iff (term leaderId : Nat) (bounded : term < 2 ^ 48) :
    (∀ manager : ShardManager,
      ((controlLeaderEpoch term leaderId).bind manager.setLeaderEpoch).isSome = true ↔
        term < 2 ^ 16 ∧ leaderId < 2 ^ 16) ∧
    ∀ (manager laterManager : ShardManager) (laterTerm laterId token laterToken : Nat),
      term < laterTerm → laterTerm < 2 ^ 48 → manager.tokenUnder term leaderId = some token →
        laterManager.tokenUnder laterTerm laterId = some laterToken → token < laterToken := by
  refine ⟨fun manager => ?_, fun manager laterManager laterTerm laterId token laterToken earlier
    laterBounded minted laterMinted => ?_⟩
  · rw [Option.isSome_iff_exists]
    simp only [accepted_iff bounded]
    exact ⟨fun ⟨_, small, fits, _⟩ => ⟨small, fits⟩, fun ⟨small, fits⟩ => ⟨_, small, fits, rfl⟩⟩
  · have shape : ∀ {manager : ShardManager} {term leaderId token : Nat}, term < 2 ^ 48 →
        manager.tokenUnder term leaderId = some token → leaderId < 2 ^ 16 ∧
          ∃ counter < 2 ^ 32, token = (term * 2 ^ 16 + leaderId) * 2 ^ 32 + counter := by
      intro manager term leaderId token bounded minted
      obtain ⟨ready, accepted, minted⟩ := Option.bind_eq_some_iff.mp minted
      obtain ⟨small, fits, rfl⟩ := (accepted_iff bounded ready).mp accepted
      obtain ⟨pair, isPair, same⟩ := Option.bind_eq_some_iff.mp minted
      unfold mintToken at isPair
      split at isPair
      · next counter =>
        cases isPair
        cases same
        refine ⟨fits, manager.nextToken, counter, ?_⟩
        rw [token_eq counter, Nat.mod_eq_of_lt (by dsimp only; omega)]
      · cases isPair
    obtain ⟨fits, counter, small, rfl⟩ := shape bounded minted
    obtain ⟨_, laterCounter, _, rfl⟩ := shape laterBounded laterMinted
    omega

theorem leaderEpoch_accepted_sample : (1 : Nat) < 2 ^ 48 ∧ ∀ manager : ShardManager,
    ((controlLeaderEpoch 1 2).bind manager.setLeaderEpoch).isSome = true :=
  ⟨by decide, fun manager =>
    ((leaderEpoch_accepted_iff 1 2 (by decide)).1 manager).mpr (by decide)⟩

theorem leaderEpoch_refused : (2 ^ 16 : Nat) < 2 ^ 48 ∧
    (controlLeaderEpoch (2 ^ 16) 0).bind new.setLeaderEpoch = none := by
  decide

end ShardManager

end RockStream
