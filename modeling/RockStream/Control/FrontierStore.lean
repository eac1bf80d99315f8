import RockStream.Lib.HashMap

/-!
Contract: the durable frontier (`FrontierLeaseStore` of `rockstream-control/src/frontier.rs`).

A process keeps the fence token, and the frontiers it has read or written, in memory. A published
frontier is compared with the one in memory before it is written, so what a new process has not read
does not hold it back.

Owns: the calls, with opens and failed writes between them; where stored frontiers never go down.

Does not own: the bytes of keys and records. The frontier of no membership has the key `none`.
-/

namespace RockStream

open Lib List

/-- The frontier did not go down. -/
def Grows (before after : Option Nat) : Prop :=
  ∀ frontier ∈ before, ∃ later ∈ after, frontier ≤ later

theorem Grows.refl (frontier : Option Nat) : Grows frontier frontier :=
  fun value held => ⟨value, held, le_rfl⟩

abbrev FrontierKey := Option (String × Nat)

inductive FrontierWrite where
  | done
  | failed
  /-- The write fails, and its bytes are stored nevertheless. -/
  | failedLate
deriving DecidableEq

/-- The state in memory over what is stored. -/
structure FrontierLeaseStore where
  fenceToken : Nat
  holder : Option Nat
  published : HashMap FrontierKey Nat
  storedLease : Nat × Option Nat
  stored : HashMap FrontierKey Nat

inductive FrontierStoreCall where
  | open
  | acquirePublisherLease (aggregatorId currentFenceToken : Nat) (outcome : FrontierWrite)
  | publishFrontier (token : Nat) (key : FrontierKey) (frontier : Nat) (outcome : FrontierWrite)
  /-- `read_published_frontier_after_handoff_for_generation` -/
  | readAfterHandoff (scope : String) (generation : Nat)

namespace FrontierLeaseStore

def empty : FrontierLeaseStore := ⟨0, none, ∅, (0, none), ∅⟩

variable (store : FrontierLeaseStore)

/-- A new process reads the lease and the frontier of no membership. -/
def reopen : FrontierLeaseStore :=
  { store with
    fenceToken := store.storedLease.1
    holder := store.storedLease.2
    published := match store.stored.lookup none with
      | some frontier => AList.insert none frontier ∅
      | none => ∅ }

def acquirePublisherLease (aggregatorId currentFenceToken : Nat)
    (outcome : FrontierWrite) : FrontierLeaseStore :=
  let lease := (store.fenceToken + 1, some aggregatorId)
  if currentFenceToken ≠ store.fenceToken ∨ 2 ^ 64 ≤ store.fenceToken + 1 then store
  else match outcome with
    | .done => { store with fenceToken := lease.1, holder := lease.2, storedLease := lease }
    | .failed => store
    | .failedLate => { store with storedLease := lease }

/-- `publish_frontier_inner`. A token other than the current one fails an assertion. -/
def publishFrontier (token : Nat) (key : FrontierKey) (frontier : Nat)
    (outcome : FrontierWrite) : FrontierLeaseStore :=
  if token ≠ store.fenceToken ∨ (store.published.lookup key).any (frontier < ·) then store
  else match outcome with
    | .done => { store with
        published := store.published.insert key frontier
        stored := store.stored.insert key frontier }
    | .failed => store
    | .failedLate => { store with stored := store.stored.insert key frontier }

def readAfterHandoff (key : FrontierKey) : FrontierLeaseStore :=
  match store.published.lookup key, store.stored.lookup key with
  | none, some frontier => { store with published := store.published.insert key frontier }
  | _, _ => store

def next : FrontierStoreCall → FrontierLeaseStore
  | .open => store.reopen
  | .acquirePublisherLease aggregatorId currentFenceToken outcome =>
    store.acquirePublisherLease aggregatorId currentFenceToken outcome
  | .publishFrontier token key frontier outcome => store.publishFrontier token key frontier outcome
  | .readAfterHandoff scope generation => store.readAfterHandoff (some (scope, generation))

/-- A process publishes where it has read what is stored, and no failed write is stored. -/
def orderly : FrontierStoreCall → Prop
  | .publishFrontier _ key _ outcome => outcome ≠ .failedLate ∧
    (store.published.lookup key = none → store.stored.lookup key = none)
  | _ => True

def orderlyRun : FrontierLeaseStore → List FrontierStoreCall → Prop
  | _, [] => True
  | store, call :: calls => store.orderly call ∧ (store.next call).orderlyRun calls

/-- What is in memory is what is stored. -/
def Faithful (store : FrontierLeaseStore) : Prop :=
  ∀ key, ∀ frontier ∈ store.published.lookup key, store.stored.lookup key = some frontier

/-- No stored frontier went down. -/
def Kept (before after : FrontierLeaseStore) : Prop :=
  ∀ key, Grows (before.stored.lookup key) (after.stored.lookup key)

variable {store}

theorem acquire_keeps (store : FrontierLeaseStore) (id token : Nat) (outcome : FrontierWrite) :
    (store.acquirePublisherLease id token outcome).published = store.published ∧
    (store.acquirePublisherLease id token outcome).stored = store.stored := by
  unfold acquirePublisherLease
  split
  · exact ⟨rfl, rfl⟩
  · cases outcome <;> exact ⟨rfl, rfl⟩

section

variable (faithful : store.Faithful)
include faithful

theorem Faithful.publish {token frontier : Nat} {key : FrontierKey} {outcome : FrontierWrite}
    (orderly : store.orderly (.publishFrontier token key frontier outcome)) :
    (store.publishFrontier token key frontier outcome).Faithful ∧
      Kept store (store.publishFrontier token key frontier outcome) := by
  unfold publishFrontier
  split
  · exact ⟨faithful, fun _ => .refl _⟩
  rename_i accepted
  cases outcome with
  | done =>
    refine ⟨fun other value held => ?_, fun other before held => ?_⟩
    · rw [Option.mem_def, HashMap.lookup_insert_eq] at held
      rw [HashMap.lookup_insert_eq]
      split at held
      · rwa [if_pos ‹_›]
      · rw [if_neg ‹_›]
        exact faithful other value held
    by_cases here : other = key
    · subst here
      cases known : store.published.lookup other with
      | none => exact absurd ((orderly.2 known).symm.trans held) nofun
      | some current =>
        cases (faithful other current known).symm.trans held
        rw [known] at accepted
        simpa using (not_or.mp accepted).2
    · exact ⟨before, (AList.lookup_insert_ne here).trans held, le_rfl⟩
  | failed => exact ⟨faithful, fun _ => .refl _⟩
  | failedLate => exact absurd rfl orderly.1

/-- One call: memory stays faithful, and what is stored does not go down. -/
theorem Faithful.next {call : FrontierStoreCall}
    (orderly : store.orderly call) : (store.next call).Faithful ∧ Kept store (store.next call) := by
  cases call with
  | «open» =>
    refine ⟨fun key frontier held => ?_, fun _ => .refl _⟩
    rw [FrontierLeaseStore.next, reopen, Option.mem_def] at held
    split at held
    · rename_i current found
      rw [HashMap.lookup_insert_eq] at held
      split at held
      · rename_i same
        cases held
        exact same ▸ found
      · cases held
    · cases held
  | acquirePublisherLease aggregatorId currentFenceToken outcome =>
    obtain ⟨published, stored⟩ := store.acquire_keeps aggregatorId currentFenceToken outcome
    rw [FrontierLeaseStore.next, Faithful, Kept, published, stored]
    exact ⟨faithful, fun _ => .refl _⟩
  | publishFrontier token key frontier outcome => exact faithful.publish orderly
  | readAfterHandoff scope generation =>
    rw [FrontierLeaseStore.next, readAfterHandoff]
    split
    · rename_i frontier _ found
      refine ⟨fun other value held => ?_, fun _ => .refl _⟩
      rw [Option.mem_def, HashMap.lookup_insert_eq] at held
      split at held
      · rename_i same
        exact same ▸ found.trans held
      · exact faithful other value held
    · exact ⟨faithful, fun _ => .refl _⟩

theorem Faithful.run {calls : List FrontierStoreCall}
    (orderly : store.orderlyRun calls) : (calls.foldl FrontierLeaseStore.next store).Faithful := by
  induction calls generalizing store with
  | nil => exact faithful
  | cons call calls ih => exact ih (faithful.next orderly.1).1 orderly.2

end

/-- In every run where a process publishes only over what it has read or written, and where no
failed write is stored, a stored frontier never goes down. A publish under another fence token
than the current one changes nothing in any case. -/
theorem stored_frontier_grows (calls : List FrontierStoreCall) (call : FrontierStoreCall)
    (orderly : empty.orderlyRun calls) (last : (calls.foldl next empty).orderly call) :
    let store := calls.foldl next empty
    (∀ key, Grows (store.stored.lookup key) ((store.next call).stored.lookup key)) ∧
    ∀ token key frontier outcome, token ≠ store.fenceToken →
      store.publishFrontier token key frontier outcome = store := by
  have faithful : empty.Faithful := nofun
  refine ⟨((faithful.run orderly).next last).2, fun token key frontier outcome other => ?_⟩
  unfold publishFrontier
  rw [if_pos (.inl other)]

theorem stored_frontier_grows_sample :
    let calls := [.acquirePublisherLease 1 0 .done,
      .publishFrontier 1 (some ("s", 1)) 10 .done, .open, .readAfterHandoff "s" 1]
    let call := FrontierStoreCall.publishFrontier 1 (some ("s", 1)) 12 .done
    empty.orderlyRun calls ∧ Grows ((calls.foldl next empty).stored.lookup (some ("s", 1)))
      (((calls.foldl next empty).next call).stored.lookup (some ("s", 1))) := by
  intro calls call
  have orderly : empty.orderlyRun calls :=
    ⟨trivial, ⟨nofun, fun _ => rfl⟩, trivial, trivial, trivial⟩
  have last : (calls.foldl next empty).orderly call := ⟨nofun, by decide⟩
  exact ⟨orderly, (stored_frontier_grows calls call orderly last).1 _⟩

/-- A new process that has not read the frontier stores a lower one. -/
theorem stored_frontier_falls :
    let store := [.acquirePublisherLease 1 0 .done, .publishFrontier 1 (some ("s", 1)) 10 .done,
      .open].foldl next empty
    store.stored.lookup (some ("s", 1)) = some 10 ∧
    (store.next (.publishFrontier 1 (some ("s", 1)) 5 .done)).stored.lookup (some ("s", 1)) =
      some 5 := by
  decide

end FrontierLeaseStore

end RockStream
