import RockStream.Control.Lease
import RockStream.Lib.History

/-!
Contract: leases across leaders (`ensure_shard_state_synced`, `persist_shard_state` and the handlers
of `rockstream-control/src/service.rs`, over `ShardPersistentStore`).

Every node has a lease table, and one object holds the last saved one. A save takes its snapshot and
then writes, so it may land late. A request checks that its node is the leader, then that the node
has loaded the object under its epoch; the grant comes after both. No other handler checks either.

Owns: the steps of all nodes; what the table of a new leader is, and that it grants greater tokens
than those before it; where the epoch of the saved table never goes down.

Does not own: elections (a leader has a greater epoch than those before it), the placement of
shards, the JSON of the object. A handler is one step on the table of its node.
-/

namespace RockStream

open Lib List

/-! ## Handlers -/

/-- What the handlers of a node do to its table, with the placements they choose. -/
inductive LeaseHandler where
  | requestShard (shardId workerId nowMs : Nat)
  | deregister (workerId : Nat)
  | deployWorkload (placements : List (Nat × Nat)) (nowMs : Nat)
  /-- A dropped session: `on_worker_dead`, without a Raft handle. -/
  | disconnect (workerId : Nat) (winner : Nat → Option Nat) (nowMs : Nat)
  | drain (shardId donor recipient nowMs : Nat)
  /-- A managed migration, or its rollback. -/
  | transfer (expected : ShardLease) (workerId nowMs : Nat)
  | shutdown

namespace LeaseHandler

/-- The shards that a dead worker leaves, with the calls that place them again. -/
def reassign (manager : ShardManager) (workerId : Nat) (winner : Nat → Option Nat) (nowMs : Nat) :
    List LeaseCall :=
  (manager.leases.toPairs.filter (·.2.workerId = workerId)).filterMap fun entry =>
    (winner entry.1).map fun target => .acquire entry.1 target nowMs entry.2.heatHint

def calls (manager : ShardManager) : LeaseHandler → List LeaseCall
  | requestShard shardId workerId nowMs => [.acquire shardId workerId nowMs default]
  | deregister workerId => [.releaseWorker workerId]
  | deployWorkload placements nowMs =>
    placements.map fun placed => .forceAcquire placed.1 placed.2 nowMs none
  | disconnect workerId winner nowMs =>
    .releaseWorker workerId :: reassign manager workerId winner nowMs
  | drain shardId _ recipient nowMs => [.forceAcquire shardId recipient nowMs none]
  | transfer expected workerId nowMs => [.transferIfOwner expected workerId nowMs]
  | shutdown => []

/-- Whether the handler saves the table after these answers. A panic ends it before. -/
def saves : LeaseHandler → List LeaseAnswer → Bool
  | requestShard _ _ _, answers | transfer _ _ _, answers =>
    answers.any fun | .granted _ _ => true | _ => false
  | deregister _, answers => answers.any fun | .freed shardIds => !shardIds.isEmpty | _ => false
  | deployWorkload _ _, answers => answers.all fun | .panicked => false | _ => true
  | disconnect _ _ _, answers => (answers.all fun | .panicked => false | _ => true) &&
      answers.any fun | .granted _ _ | .alreadyLeased _ _ => true | _ => false
  | drain _ donor _ _, answers => answers.any fun
    | .granted _ evicted => evicted = some donor
    | _ => false
  | shutdown, _ => true

end LeaseHandler

/-- The answers of some calls, in order. -/
def ShardManager.answers (manager : ShardManager) : List LeaseCall → List LeaseAnswer
  | [] => []
  | call :: rest => (manager.call call).1 :: (manager.call call).2.answers rest

/-! ## Nodes -/

/-- The leader in office with its epoch, each node's table and the epoch it has loaded under, the
object, the saves on their way to it, and the nodes and tokens of all grants. -/
structure LeaseWorld where
  office : Nat × Nat
  managers : Nat → ShardManager
  syncedEpoch : Nat → Option Nat
  stored : Option ShardManager
  saves : List ShardManager
  granted : List (Nat × Nat)

inductive TakeoverStep where
  | elect (node epoch : Nat)
  /-- `readable` says that the object can be read and parsed. -/
  | sync (readable : Bool)
  | handle (node : Nat) (handler : LeaseHandler)
  | land (index : Nat)
  | fail (index : Nat)

namespace LeaseWorld

def start : LeaseWorld := ⟨(0, 0), fun _ => .new, fun _ => none, none, [], []⟩

variable (world : LeaseWorld)

/-- `ShardPersistentStore::load`, which answers a failure with the default. -/
def load (readable : Bool) : ShardManager :=
  (if readable then world.stored else none).getD ⟨∅, 0, 0⟩

/-- `ensure_shard_state_synced`, of the leader. An epoch that is refused ends the request. -/
def sync (readable : Bool) : LeaseWorld :=
  let (node, epoch) := world.office
  if world.syncedEpoch node = some epoch then world
  else
    match (world.load readable).setLeaderEpoch epoch with
    | some ready => { world with
        managers := Function.update world.managers node ready
        syncedEpoch := Function.update world.syncedEpoch node (some epoch) }
    | none => { world with managers := Function.update world.managers node (world.load readable) }

/-- The calls of a handler on the table of its node, which is then saved or not. -/
def handle (node : Nat) (handler : LeaseHandler) : LeaseWorld :=
  let manager := world.managers node
  let calls := handler.calls manager
  { world with
    managers := Function.update world.managers node (manager.run calls)
    saves :=
      if handler.saves (manager.answers calls) then manager.run calls :: world.saves
        else world.saves
    granted := (manager.minted calls).map (fun minted => (node, minted.2)) ++ world.granted }

def next : TakeoverStep → LeaseWorld
  | .elect node epoch =>
    if world.office.2 < epoch then { world with office := (node, epoch) } else world
  | .sync readable => world.sync readable
  | .handle node (.requestShard shardId workerId nowMs) =>
    if (world.syncedEpoch node).isSome then world.handle node (.requestShard shardId workerId nowMs)
    else world
  | .handle node handler => world.handle node handler
  | .land index => { world with
      stored := (world.saves[index]?).or world.stored
      saves := world.saves.eraseIdx index }
  | .fail index => { world with saves := world.saves.eraseIdx index }

def run (steps : List TakeoverStep) : LeaseWorld := steps.foldl next world

/-! ## What every run keeps -/

def UpTo (epoch : Nat) (table : ShardManager) : Prop :=
  table.leaderEpoch ≤ epoch ∧ table.leaderEpoch < 2 ^ 32

/-- What the epoch in office says of all tables, tokens and nodes. -/
structure Sound (world : LeaseWorld) : Prop where
  managers : ∀ node, UpTo world.office.2 (world.managers node)
  stored : ∀ table ∈ world.stored, UpTo world.office.2 table
  saves : ∀ table ∈ world.saves, UpTo world.office.2 table
  granted : ∀ grant ∈ world.granted, grant.2 / 2 ^ 32 ≤ world.office.2
  synced : ∀ node epoch, world.syncedEpoch node = some epoch → epoch ≤ world.office.2 ∧
    (epoch = world.office.2 → (world.managers node).leaderEpoch = epoch)

end LeaseWorld

/-- A call that neither sets the epoch nor replaces the table. -/
def LeaseCall.ordinary : LeaseCall → Bool
  | .setLeaderEpoch _ | .restore _ => false
  | _ => true

theorem LeaseHandler.ordinary_calls (handler : LeaseHandler) (manager : ShardManager) :
    ∀ call ∈ handler.calls manager, call.ordinary = true := by
  cases handler with
  | disconnect workerId winner nowMs =>
    refine forall_mem_cons.mpr ⟨rfl, fun call placed => ?_⟩
    obtain ⟨entry, -, chosen⟩ := mem_filterMap.mp placed
    obtain ⟨target, -, rfl⟩ := Option.map_eq_some_iff.mp chosen
    rfl
  | deployWorkload placements nowMs =>
    intro call placed
    obtain ⟨placement, -, rfl⟩ := mem_map.mp placed
    rfl
  | _ => simp [calls, LeaseCall.ordinary]

/-- Ordinary calls keep the epoch, which stands in the high half of the tokens they mint. -/
theorem ShardManager.run_epoch {manager : ShardManager} {calls : List LeaseCall}
    (ordinary : ∀ call ∈ calls, call.ordinary = true) (small : manager.leaderEpoch < 2 ^ 32) :
    (manager.run calls).leaderEpoch = manager.leaderEpoch ∧
      ∀ minted ∈ manager.minted calls, minted.2 / 2 ^ 32 = manager.leaderEpoch := by
  induction calls generalizing manager with
  | nil => exact ⟨rfl, nofun⟩
  | cons call rest ih =>
    obtain ⟨isOrdinary, others⟩ := forall_mem_cons.mp ordinary
    have first : (manager.call call).2.leaderEpoch = manager.leaderEpoch ∧
        ∀ minted ∈ (manager.call call).1.minted, minted.2 / 2 ^ 32 = manager.leaderEpoch := by
      have moves := manager.call_moves call
      generalize (manager.call call).1.minted = tokens, (manager.call call).2 = after at moves ⊢
      cases moves with
      | keep counter epoch leases => exact ⟨epoch, nofun⟩
      | mint shardId lease fits isToken =>
        refine ⟨rfl, forall_mem_singleton.mpr ?_⟩
        rw [token_eq fits, Nat.mod_eq_of_lt small]
        omega
      | epoch fits => cases isOrdinary
      | restore => cases isOrdinary
    obtain ⟨epoch, tokens⟩ := ih others (first.1 ▸ small)
    refine ⟨epoch.trans first.1, fun minted listed => ?_⟩
    rcases mem_append.mp listed with now | later
    · exact first.2 minted now
    · exact (tokens minted later).trans first.1

namespace LeaseWorld

variable {world : LeaseWorld} {manager : ShardManager}

/-- Every handler but a request is handled in any case; a request that is refused changes
nothing. -/
theorem next_handle (world : LeaseWorld) (node : Nat) (handler : LeaseHandler) :
    world.next (.handle node handler) = world.handle node handler ∨
      world.next (.handle node handler) = world := by
  cases handler with
  | requestShard shardId workerId nowMs =>
    rw [next]
    split
    · exact .inl rfl
    · exact .inr rfl
  | _ => exact .inl rfl

section

variable (sound : world.Sound)
include sound

theorem Sound.update {node : Nat} (upTo : UpTo world.office.2 manager) :
    ∀ other, UpTo world.office.2 (Function.update world.managers node manager other) :=
  (Function.forall_update_iff _ fun _ => UpTo world.office.2).mpr
    ⟨upTo, fun other _ => sound.managers other⟩

theorem Sound.calls (node : Nat) (handler : LeaseHandler) :
    let manager := world.managers node
    (manager.run (handler.calls manager)).leaderEpoch = manager.leaderEpoch ∧
      ∀ minted ∈ manager.minted (handler.calls manager), minted.2 / 2 ^ 32 = manager.leaderEpoch :=
  ShardManager.run_epoch (handler.ordinary_calls _) (sound.managers node).2

theorem Sound.handle (node : Nat) (handler : LeaseHandler) : Sound (world.handle node handler) := by
  have upTo := sound.managers node
  obtain ⟨epoch, tokens⟩ := sound.calls node handler
  rw [LeaseWorld.handle]
  generalize (world.managers node).run _ = after, ShardManager.minted _ _ = minted at epoch tokens ⊢
  have upToAfter : UpTo world.office.2 after := by rwa [UpTo, epoch]
  have same (other : Nat) : (Function.update world.managers node after other).leaderEpoch =
      (world.managers other).leaderEpoch := by
    by_cases here : other = node
    · rw [here, Function.update_self, epoch]
    · rw [Function.update_of_ne here]
  refine ⟨sound.update upToAfter, sound.stored, ?_, fun grant listed => ?_,
    fun other current synced => by rw [same]; exact sound.synced other current synced⟩
  · dsimp only
    split
    · exact forall_mem_cons.mpr ⟨upToAfter, sound.saves⟩
    · exact sound.saves
  · rcases mem_append.mp listed with fresh | before
    · obtain ⟨token, isMinted, rfl⟩ := mem_map.mp fresh
      exact (tokens token isMinted).trans_le upTo.1
    · exact sound.granted grant before

theorem Sound.load (readable : Bool) : UpTo world.office.2 (world.load readable) := by
  rw [LeaseWorld.load]
  cases loaded : if readable then world.stored else none with
  | none => exact ⟨Nat.zero_le _, by decide⟩
  | some table =>
    split at loaded
    · exact sound.stored table loaded
    · cases loaded

theorem Sound.sync (readable : Bool) : Sound (world.sync readable) := by
  rw [LeaseWorld.sync]
  dsimp only
  split
  · exact sound
  rename_i unsynced
  have loaded := sound.load readable
  rw [ShardManager.setLeaderEpoch]
  split
  · rename_i ready accepted
    split at accepted <;> cases accepted
    rename_i fits
    refine ⟨sound.update ⟨le_rfl, fits⟩, sound.stored, sound.saves, sound.granted,
      fun node epoch same => ?_⟩
    by_cases here : node = world.office.1
    · simp_all
    · simp only [Function.update_of_ne here] at same ⊢
      exact sound.synced node epoch same
  · refine ⟨sound.update loaded, sound.stored, sound.saves, sound.granted,
      fun node epoch same => ?_⟩
    by_cases here : node = world.office.1
    · subst here
      exact ⟨(sound.synced _ epoch same).1, fun now => absurd (now ▸ same) unsynced⟩
    · simp only [Function.update_of_ne here]
      exact sound.synced node epoch same

theorem Sound.next (action : TakeoverStep) : Sound (world.next action) := by
  cases action with
  | elect node epoch =>
    rw [LeaseWorld.next]
    split
    · rename_i greater
      have later {table : ShardManager} (upTo : UpTo world.office.2 table) : UpTo epoch table :=
        ⟨upTo.1.trans greater.le, upTo.2⟩
      refine ⟨fun node => later (sound.managers node),
        fun table held => later (sound.stored table held),
        fun table listed => later (sound.saves table listed),
        fun grant listed => (sound.granted grant listed).trans greater.le,
        fun node old synced => ?_⟩
      have before := (sound.synced node old synced).1.trans_lt greater
      exact ⟨before.le, fun now => absurd now before.ne⟩
    · exact sound
  | sync readable => exact sound.sync readable
  | handle node handler =>
    rcases world.next_handle node handler with handled | same
    · exact handled ▸ sound.handle node handler
    · rwa [same]
  | land index =>
    refine ⟨sound.managers, fun table held => ?_,
      fun table listed => sound.saves table (mem_of_mem_eraseIdx listed),
      sound.granted, sound.synced⟩
    rcases Option.or_eq_some_iff.mp held with found | ⟨_, held⟩
    · exact sound.saves table (mem_of_getElem? found)
    · exact sound.stored table held
  | fail index =>
    exact ⟨sound.managers, sound.stored,
      fun table listed => sound.saves table (mem_of_mem_eraseIdx listed),
      sound.granted, sound.synced⟩

theorem Sound.run (steps : List TakeoverStep) : Sound (world.run steps) :=
  foldlRecOn (motive := Sound) steps _ sound fun _ held action _ => held.next action

end

theorem sound_start : start.Sound :=
  ⟨fun _ => ⟨le_rfl, Nat.two_pow_pos 32⟩, nofun, nofun, nofun, fun _ _ => nofun⟩

/-! ## The table of a new leader -/

/-- The leader reads the object, or there is nothing in it; and it grants only when it has loaded it
under its epoch. -/
def careful (world : LeaseWorld) : TakeoverStep → Prop
  | .sync readable =>
    readable = true ∨ ∀ table ∈ world.stored, table.leases = ∅ ∧ table.nextToken = 0
  | .handle node handler => node = world.office.1 →
      (world.managers node).minted (handler.calls (world.managers node)) = [] ∨
        world.syncedEpoch node = some world.office.2
  | _ => True

/-- What a leader grants and what its table is, since some world in which it was elected. -/
structure Serves (elected : LeaseWorld) (term : List TakeoverStep) (world : LeaseWorld) : Prop where
  sound : world.Sound
  office : world.office = elected.office
  granted : ∀ grant ∈ world.granted, grant ∈ elected.granted ∨
    (grant.1 = elected.office.1 → grant.2 / 2 ^ 32 = elected.office.2)
  loaded : world.syncedEpoch elected.office.1 = some elected.office.2 →
    ∃ earlier readable later calls, term = earlier ++ .sync readable :: later ∧
      (∀ call ∈ calls, call.ordinary = true) ∧ world.managers elected.office.1 =
        ShardManager.run { (elected.run earlier).stored.getD ⟨∅, 0, 0⟩ with
          leaderEpoch := elected.office.2 } calls

section

variable {elected : LeaseWorld} {term : List TakeoverStep}

/-- A step that changes no table of the leader and nothing it has granted. -/
theorem Serves.keep (serves : Serves elected term world) (action : TakeoverStep) {next : LeaseWorld}
    (sound : next.Sound) (office : next.office = world.office)
    (granted : ∀ grant ∈ next.granted, grant ∈ world.granted ∨ grant.1 ≠ elected.office.1)
    (manager : next.managers elected.office.1 = world.managers elected.office.1)
    (synced : next.syncedEpoch elected.office.1 = world.syncedEpoch elected.office.1) :
    Serves elected (term ++ [action]) next := by
  refine ⟨sound, office.trans serves.office, fun grant listed => ?_, fun isSynced => ?_⟩
  · rcases granted grant listed with before | foreign
    · exact serves.granted grant before
    · exact .inr fun own => absurd own foreign
  · obtain ⟨earlier, readable, later, calls, rfl, ordinary, table⟩ :=
      serves.loaded (synced ▸ isSynced)
    exact ⟨earlier, readable, later ++ [action], calls, by simp, ordinary, manager.trans table⟩

theorem Serves.handle (serves : Serves elected term world) (node : Nat) (handler : LeaseHandler)
    (isCareful : world.careful (.handle node handler)) :
    Serves elected (term ++ [.handle node handler]) (world.handle node handler) := by
  have sound := serves.sound.handle node handler
  by_cases own : node = elected.office.1
  · subst own
    refine ⟨sound, serves.office, fun grant listed => ?_, fun isSynced => ?_⟩
    · rcases mem_append.mp listed with fresh | before
      · obtain ⟨token, isMinted, rfl⟩ := mem_map.mp fresh
        refine .inr fun _ => ?_
        rcases isCareful (by rw [serves.office]) with nothing | synced
        · rw [nothing] at isMinted
          cases isMinted
        · have current := (serves.sound.synced _ _ synced).2 rfl
          rw [(serves.sound.calls _ handler).2 token isMinted, current, serves.office]
      · exact serves.granted grant before
    · obtain ⟨earlier, readable, later, calls, rfl, ordinary, table⟩ := serves.loaded isSynced
      refine ⟨earlier, readable, later ++ [.handle elected.office.1 handler],
        calls ++ handler.calls (world.managers elected.office.1), by simp, ?_, ?_⟩
      · exact fun call listed => (mem_append.mp listed).elim (ordinary call)
          (handler.ordinary_calls _ call)
      · rw [ShardManager.run, foldl_append]
        simp only [LeaseWorld.handle, Function.update_self]
        rw [ShardManager.run, table]
        rfl
  · refine serves.keep _ sound rfl (fun grant listed => ?_) ?_ rfl
    · rcases mem_append.mp listed with fresh | before
      · obtain ⟨token, -, rfl⟩ := mem_map.mp fresh
        exact .inr own
      · exact .inl before
    · exact Function.update_of_ne (Ne.symm own) ..

theorem Serves.sync (serves : Serves elected term world) (readable : Bool)
    (isCareful : world.careful (.sync readable)) (reached : elected.run term = world) :
    Serves elected (term ++ [.sync readable]) (world.sync readable) := by
  have sound := serves.sound.sync readable
  rw [LeaseWorld.sync] at sound ⊢
  rw [serves.office] at sound ⊢
  dsimp only at sound ⊢
  split
  · exact serves.keep _ serves.sound rfl (fun _ => .inl) rfl rfl
  · rename_i unsynced
    rw [if_neg unsynced] at sound
    rw [ShardManager.setLeaderEpoch] at sound ⊢
    by_cases fits : elected.office.2 < 2 ^ 32
    · rw [if_pos fits] at sound ⊢
      refine ⟨sound, rfl, serves.granted, fun _ => ⟨term, readable, [], [], rfl, by simp, ?_⟩⟩
      dsimp only
      rw [Function.update_self, reached, load]
      -- A table that cannot be read is the default, which is all that was stored.
      cases readable with
      | true => rfl
      | false =>
        have nothing := isCareful.resolve_left Bool.false_ne_true
        cases held : world.stored with
        | none => rfl
        | some table =>
          obtain ⟨leases, counter⟩ := nothing table held
          simp [leases, counter, ShardManager.run]
    · rw [if_neg fits] at sound ⊢
      exact ⟨sound, rfl, serves.granted, fun isSynced => absurd isSynced unsynced⟩

theorem Serves.next (serves : Serves elected term world) {action : TakeoverStep}
    (isCareful : world.careful action) (inTerm : ∀ node epoch, action ≠ .elect node epoch)
    (reached : elected.run term = world) :
    Serves elected (term ++ [action]) (world.next action) := by
  have sound := serves.sound.next action
  cases action with
  | elect node epoch => exact absurd rfl (inTerm node epoch)
  | sync readable => exact serves.sync readable isCareful reached
  | handle node handler =>
    rcases world.next_handle node handler with handled | same
    · exact handled ▸ serves.handle node handler isCareful
    · rw [same]
      exact serves.keep _ serves.sound rfl (fun _ => .inl) rfl rfl
  | land index => exact serves.keep _ sound rfl (fun _ => .inl) rfl rfl
  | fail index => exact serves.keep _ sound rfl (fun _ => .inl) rfl rfl

theorem Serves.run (serves : Serves elected [] elected)
    (isCareful : Throughout LeaseWorld.next careful elected term)
    (inTerm : ∀ action ∈ term, ∀ node epoch, action ≠ .elect node epoch) :
    Serves elected term (elected.run term) := by
  induction term using reverseRecOn with
  | nil => exact serves
  | append_singleton term action ih =>
    obtain ⟨before, now, -⟩ := throughout_append.mp isCareful
    have reached := ih before fun earlier listed => inTerm earlier (mem_append_left _ listed)
    rw [LeaseWorld.run, foldl_append]
    exact reached.next now (inTerm action (by simp)) rfl

end

/-- Only the leader in office grants leases or saves its table, under its epoch, and no save
outlives it. -/
def orderly (world : LeaseWorld) : TakeoverStep → Prop
  | .elect _ _ => world.saves = []
  | .handle node handler =>
    let calls := handler.calls (world.managers node)
    (world.managers node).minted calls = [] ∧
        handler.saves ((world.managers node).answers calls) = false ∨
      world.syncedEpoch node = some world.office.2
  | _ => True

/-- The saves on their way are those of the leader in office. -/
def Current (world : LeaseWorld) : Prop :=
  ∀ table ∈ world.saves, table.leaderEpoch = world.office.2

theorem Current.next (current : world.Current) (sound : world.Sound) {action : TakeoverStep}
    (isOrderly : world.orderly action) : (world.next action).Current := by
  cases action with
  | elect node epoch =>
    rw [LeaseWorld.next]
    split
    · intro table listed
      rw [show world.saves = [] from isOrderly] at listed
      cases listed
    · exact current
  | sync readable =>
    rw [LeaseWorld.next, LeaseWorld.sync]
    dsimp only
    split
    · exact current
    · split <;> exact current
  | handle node handler =>
    rcases world.next_handle node handler with handled | same
    · rw [handled]
      intro table listed
      unfold LeaseWorld.handle at listed
      dsimp only at listed
      split at listed
      · rename_i saved
        rcases mem_cons.mp listed with rfl | before
        · rcases isOrderly with ⟨-, unsaved⟩ | synced
          · exact absurd saved (by rw [unsaved]; decide)
          · exact (sound.calls node handler).1.trans ((sound.synced node _ synced).2 rfl)
        · exact current table before
      · exact current table listed
    · rwa [same]
  | land index => exact fun table listed => current table (mem_of_mem_eraseIdx listed)
  | fail index => exact fun table listed => current table (mem_of_mem_eraseIdx listed)

theorem next_stored (action : TakeoverStep) (other : ∀ index, action ≠ .land index) :
    (world.next action).stored = world.stored := by
  cases action with
  | land index => exact absurd rfl (other index)
  | elect node epoch =>
    rw [LeaseWorld.next]
    split <;> rfl
  | sync readable =>
    rw [LeaseWorld.next, LeaseWorld.sync]
    dsimp only
    split
    · rfl
    · split <;> rfl
  | handle node handler =>
    rcases world.next_handle node handler with handled | same
    · rw [handled, LeaseWorld.handle]
    · rw [same]
  | fail index => rfl

/-- In every run where only the leader in office grants leases or saves its table, and where its
saves land or fail before the next election, the epoch of the saved table never goes down. -/
theorem stored_epoch_grows (steps : List TakeoverStep)
    (isOrderly : Throughout next orderly start steps)
    (action : TakeoverStep) : let world := start.run steps
    ∀ table ∈ world.stored, ∃ newer ∈ (world.next action).stored,
      table.leaderEpoch ≤ newer.leaderEpoch := by
  have both : (start.run steps).Sound ∧ (start.run steps).Current :=
    isOrderly.invariant (fun world => world.Sound ∧ world.Current) ⟨sound_start, nofun⟩
      fun world action held allowed => ⟨held.1.next action, held.2.next held.1 allowed⟩
  obtain ⟨sound, current⟩ := both
  generalize start.run steps = world at sound current ⊢
  intro _ table held
  by_cases other : ∀ index, action ≠ .land index
  · exact ⟨table, by rwa [next_stored action other], le_rfl⟩
  · obtain ⟨index, isLand⟩ := not_forall.mp other
    obtain rfl := not_not.mp isLand
    rw [LeaseWorld.next]
    cases found : world.saves[index]? with
    | none => exact ⟨table, held, le_rfl⟩
    | some newer =>
      exact ⟨newer, rfl, current newer (mem_of_getElem? found) ▸ (sound.stored table held).1⟩

theorem stored_epoch_grows_sample :
    let steps := [.elect 1 1, .sync true, .handle 1 (.requestShard 4 7 0), .land 0,
      .handle 2 (.deregister 7), .handle 1 (.disconnect 7 (fun _ => some 9) 1)]
    Throughout next orderly start steps ∧ ∀ table ∈ (start.run steps).stored,
      ∃ newer ∈ ((start.run steps).next (.land 0)).stored,
        table.leaderEpoch ≤ newer.leaderEpoch := by
  have isOrderly : Throughout next orderly start [.elect 1 1, .sync true,
      .handle 1 (.requestShard 4 7 0), .land 0, .handle 2 (.deregister 7),
      .handle 1 (.disconnect 7 (fun _ => some 9) 1)] :=
    ⟨rfl, trivial, .inr rfl, trivial, .inl ⟨rfl, rfl⟩, .inr rfl, trivial⟩
  exact ⟨isOrderly, stored_epoch_grows _ isOrderly (.land 0)⟩

/-- A late save of an old leader, or a deregistration or deployment there, replaces the table of the
new one. -/
theorem old_table_saved :
    let world := start.run [.elect 1 1, .sync true, .handle 1 (.requestShard 4 7 0), .elect 2 2,
      .sync true, .handle 2 (.requestShard 5 7 0), .land 0]
    world.stored.map (·.leaderEpoch) = some 2 ∧
    (world.next (.land 0)).stored.map (·.leaderEpoch) = some 1 ∧
    (world.run [.handle 1 (.deregister 7), .land 0]).stored.map (·.leaderEpoch) = some 1 ∧
    (world.run [.handle 1 (.deployWorkload [] 0), .land 0]).stored.map (·.leaderEpoch) = some 1 :=
  ⟨rfl, rfl, rfl, rfl⟩

end LeaseWorld

end RockStream
