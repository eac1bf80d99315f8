import Mathlib

/-!
Contract: leader election of the control plane (`rockstream-control/src/raft.rs`).

A node changes its term, vote and role under a lock that it holds until the change is saved, so a
change and its save are one step. `save` panics when its put fails, with the state stored or not,
and the task then ends without an answer. Replies stay available for ever; a reply that is never
read is lost. Requests and heartbeats may carry any term, at any time.

Owns: `RaftCluster` with the handlers of both requests, both halves of an election, the end of a
round of heartbeats and restarts; that no two nodes are ever Leader in one term.

Does not own: timers, `current_leader`, the lease of a leader, and puts that land after they failed.
-/

namespace RockStream

open List

inductive RaftRole where
  | follower
  | candidate
  | leader
deriving DecidableEq

structure RaftPersistentState (size : Nat) where
  currentTerm : Nat
  votedFor : Option (Fin size)
deriving DecidableEq

/-- A node: its state in memory and in the store, and the election whose replies it waits for. -/
structure RaftNode (size : Nat) where
  persistent : RaftPersistentState size
  role : RaftRole
  stored : RaftPersistentState size
  election : Option Nat

inductive SaveOutcome where
  | saved
  | failed (stored : Bool)
deriving DecidableEq

/-- `RequestVoteResponse`, with its sender and receiver. -/
structure VoteReply (size : Nat) where
  voter : Fin size
  candidate : Fin size
  term : Nat
  voteGranted : Bool
deriving DecidableEq

variable {size : Nat}

namespace RaftNode

variable (node : RaftNode size)

def save : SaveOutcome → RaftNode size
  | .saved | .failed true => { node with stored := node.persistent }
  | .failed false => node

/-- A node learns of a higher term. -/
def stepDownTo (term : Nat) : RaftNode size :=
  { node with persistent := ⟨term, none⟩, role := .follower }

/-- `handle_request_vote` before the save, and whether the vote is granted. -/
def handleRequestVote (term : Nat) (candidate : Fin size) : RaftNode size × Bool :=
  let node := if node.persistent.currentTerm < term then node.stepDownTo term else node
  if term = node.persistent.currentTerm ∧
      (node.persistent.votedFor = none ∨ node.persistent.votedFor = some candidate) then
    ({ node with persistent := ⟨node.persistent.currentTerm, some candidate⟩ }, true)
  else
    (node, false)

/-- `handle_heartbeat`: only a higher term is saved. -/
def handleHeartbeat (term : Nat) (outcome : SaveOutcome) : RaftNode size :=
  if node.persistent.currentTerm < term then (node.stepDownTo term).save outcome
  else if term = node.persistent.currentTerm then { node with role := .follower }
  else node

/-- `start_election` up to its requests, which are sent after the save. -/
def startElection (nodeId : Fin size) (outcome : SaveOutcome) : RaftNode size :=
  let term := node.persistent.currentTerm + 1
  let next := { node with persistent := ⟨term, some nodeId⟩, role := .candidate }.save outcome
  { next with election := if outcome = .saved then some term else none }

/-- `config.peers.len().div_ceil(2) + 1`. -/
def majority (peers : Nat) : Nat := (peers + 1) / 2 + 1

def votes (term : Nat) (replies : List (VoteReply size)) : List (VoteReply size) :=
  replies.filter fun reply => reply.voteGranted && reply.term = term

def highestTermSeen (term : Nat) (replies : List (VoteReply size)) : Nat :=
  replies.foldl (fun highest reply => max highest reply.term) term

/-- `start_election` from the replies on. -/
def finishElection (term : Nat) (replies : List (VoteReply size))
    (outcome : SaveOutcome) : RaftNode size :=
  let node := { node with election := none }
  if node.role ≠ .candidate ∨ node.persistent.currentTerm ≠ term then node
  else if term < highestTermSeen term replies then
    (node.stepDownTo (highestTermSeen term replies)).save outcome
  else if majority (size - 1) ≤ (votes term replies).length + 1 then { node with role := .leader }
  else node

/-- `send_heartbeats` from the replies on: a term that was read before, the highest term of a reply,
and whether a majority has answered in time. -/
def finishHeartbeats (term highest : Nat) (quorum : Bool) (outcome : SaveOutcome) : RaftNode size :=
  if term < highest then
    if node.role = .leader ∧ node.persistent.currentTerm < highest then
      (node.stepDownTo highest).save outcome
    else node
  else if node.role = .leader ∧ node.persistent.currentTerm = term ∧ !quorum then
    { node with role := .follower }
  else node

end RaftNode

structure RaftCluster (size : Nat) where
  nodes : Fin size → RaftNode size
  replies : List (VoteReply size)

inductive RaftStep (size : Nat) where
  | requestVote (voter candidate : Fin size) (term : Nat) (outcome : SaveOutcome)
  | heartbeat (node : Fin size) (term : Nat) (outcome : SaveOutcome)
  | startElection (node : Fin size) (outcome : SaveOutcome)
  | finishElection (node : Fin size) (replies : List (VoteReply size)) (outcome : SaveOutcome)
  | finishHeartbeats (node : Fin size) (term highest : Nat) (quorum : Bool) (outcome : SaveOutcome)
  | stepDown (node : Fin size)
  | restart (node : Fin size)

namespace RaftCluster

def change (cluster : RaftCluster size) (node : Fin size) (next : RaftNode size)
    (sent : List (VoteReply size)) : RaftCluster size :=
  ⟨Function.update cluster.nodes node next, sent ++ cluster.replies⟩

/-- One step. The vote of a candidate for itself is kept as a reply to itself; an election reads at
most one reply of every other node. -/
def step (cluster : RaftCluster size) : RaftStep size → RaftCluster size
  | .requestVote voter candidate term outcome =>
    let (next, granted) := (cluster.nodes voter).handleRequestVote term candidate
    cluster.change voter (next.save outcome) (if outcome = .saved then
      [⟨voter, candidate, next.persistent.currentTerm, granted⟩] else [])
  | .heartbeat node term outcome =>
    cluster.change node ((cluster.nodes node).handleHeartbeat term outcome) []
  | .startElection node outcome =>
    let next := (cluster.nodes node).startElection node outcome
    cluster.change node next (next.election.toList.map fun term => ⟨node, node, term, true⟩)
  | .finishElection node replies outcome =>
    match (cluster.nodes node).election with
    | none => cluster
    | some term =>
      if (∀ reply ∈ replies, reply ∈ cluster.replies ∧ reply.candidate = node ∧
          reply.voter ≠ node) ∧
          (replies.map VoteReply.voter).Nodup then
        cluster.change node ((cluster.nodes node).finishElection term replies outcome) []
      else cluster
  | .finishHeartbeats node term highest quorum outcome =>
    cluster.change node ((cluster.nodes node).finishHeartbeats term highest quorum outcome) []
  | .stepDown node => cluster.change node { cluster.nodes node with role := .follower } []
  | .restart node =>
    let stored := (cluster.nodes node).stored
    cluster.change node ⟨stored, .follower, stored, none⟩ []

/-- Nodes that boot for the first time. -/
def boot (size : Nat) : RaftCluster size := ⟨fun _ => ⟨⟨0, none⟩, .follower, ⟨0, none⟩, none⟩, []⟩

def run (steps : List (RaftStep size)) : RaftCluster size := steps.foldl step (boot size)

end RaftCluster

/-! ## Votes -/

/-- The state cannot grant another vote of the term. -/
def RaftPersistentState.Backs (state : RaftPersistentState size) (term : Nat)
    (candidate : Fin size) : Prop :=
  term < state.currentTerm ∨ term = state.currentTerm ∧ state.votedFor = some candidate

namespace RaftNode

/-- Neither the node nor its restart can grant another vote of the term. -/
def Backs (node : RaftNode size) (term : Nat) (candidate : Fin size) : Prop :=
  node.persistent.Backs term candidate ∧ node.stored.Backs term candidate

variable {node next : RaftNode size} {term : Nat} {candidate : Fin size}

theorem Backs.save (backs : node.Backs term candidate) (outcome : SaveOutcome) :
    (node.save outcome).Backs term candidate := by
  cases outcome with
  | saved => exact ⟨backs.1, backs.1⟩
  | failed stored =>
    cases stored with
    | true => exact ⟨backs.1, backs.1⟩
    | false => exact backs

theorem Backs.raise (backs : node.Backs term candidate)
    (higher : node.persistent.currentTerm < next.persistent.currentTerm)
    (kept : next.stored = node.stored) : next.Backs term candidate := by
  refine ⟨.inl ?_, kept ▸ backs.2⟩
  rcases backs.1 with older | ⟨rfl, _⟩
  · exact older.trans higher
  · exact higher

/-- What a change under the lock may do to a node. -/
structure Changes (node next : RaftNode size) : Prop where
  backs : ∀ {term candidate}, node.Backs term candidate → next.Backs term candidate
  election : ∀ {term}, next.election = some term → node.election = some term
  led : next.role = .leader →
    node.role = .leader ∧ next.persistent.currentTerm = node.persistent.currentTerm

theorem Changes.refl (node : RaftNode size) : node.Changes node :=
  ⟨id, id, fun led => ⟨led, rfl⟩⟩

theorem Changes.save (changes : node.Changes next) (outcome : SaveOutcome) :
    node.Changes (next.save outcome) := by
  have same : (next.save outcome).persistent = next.persistent ∧
      (next.save outcome).role = next.role ∧ (next.save outcome).election = next.election := by
    rcases outcome with _ | _ | _ <;> exact ⟨rfl, rfl, rfl⟩
  refine ⟨fun backs => (changes.backs backs).save outcome, ?_, ?_⟩
  · rw [same.2.2]
    exact changes.election
  · rw [same.1, same.2.1]
    exact changes.led

theorem changes_follower (node : RaftNode size) : node.Changes { node with role := .follower } :=
  ⟨id, id, nofun⟩

theorem changes_stepDownTo (higher : node.persistent.currentTerm < term) :
    node.Changes (node.stepDownTo term) :=
  ⟨fun backs => backs.raise higher rfl, id, nofun⟩

theorem changes_handleHeartbeat (node : RaftNode size) (term : Nat) (outcome : SaveOutcome) :
    node.Changes (node.handleHeartbeat term outcome) := by
  unfold handleHeartbeat
  split_ifs with higher
  · exact (changes_stepDownTo higher).save outcome
  · exact changes_follower node
  · exact .refl node

theorem changes_finishHeartbeats (node : RaftNode size) (term highest : Nat) (quorum : Bool)
    (outcome : SaveOutcome) : node.Changes (node.finishHeartbeats term highest quorum outcome) := by
  unfold finishHeartbeats
  split_ifs with _ higher
  · exact (changes_stepDownTo higher.2).save outcome
  · exact .refl node
  · exact changes_follower node
  · exact .refl node

theorem handleRequestVote_spec (node : RaftNode size) (term : Nat) (candidate : Fin size) :
    node.Changes (node.handleRequestVote term candidate).1 ∧
      ((node.handleRequestVote term candidate).2 = true →
        (node.handleRequestVote term candidate).1.persistent =
          ⟨(node.handleRequestVote term candidate).1.persistent.currentTerm, some candidate⟩) := by
  have reached : node.Changes
      (if node.persistent.currentTerm < term then node.stepDownTo term else node) := by
    split
    · next higher => exact changes_stepDownTo higher
    · exact .refl node
  unfold handleRequestVote
  generalize (if node.persistent.currentTerm < term then node.stepDownTo term else node) = current
    at reached ⊢
  dsimp only
  split
  · next votes =>
    refine ⟨⟨fun {older other} backs => ?_, reached.election, reached.led⟩, fun _ => rfl⟩
    obtain ⟨voted, stored⟩ := reached.backs backs
    refine ⟨voted.imp_right fun ⟨isTerm, isOther⟩ => ⟨isTerm, ?_⟩, stored⟩
    rw [isOther] at votes
    exact (votes.2.resolve_left (by simp)).symm
  · exact ⟨reached, nofun⟩

end RaftNode

/-! ## Elections -/

namespace RaftCluster

open RaftNode

/-- A majority has granted its votes of the term to the node. -/
def Elected (replies : List (VoteReply size)) (node : Fin size) (term : Nat) : Prop :=
  ∃ voters : Finset (Fin size), size < 2 * voters.card ∧
    ∀ voter ∈ voters, ⟨voter, node, term, true⟩ ∈ replies

theorem Elected.mono {replies more : List (VoteReply size)} {node : Fin size} {term : Nat}
    (elected : Elected replies node term) (grows : replies ⊆ more) : Elected more node term := by
  obtain ⟨voters, many, voted⟩ := elected
  exact ⟨voters, many, fun voter mem => grows (voted voter mem)⟩

structure Sound (cluster : RaftCluster size) : Prop where
  backed : ∀ reply ∈ cluster.replies, reply.voteGranted = true →
    (cluster.nodes reply.voter).Backs reply.term reply.candidate
  once : ∀ first ∈ cluster.replies, ∀ second ∈ cluster.replies, first.voteGranted = true →
    second.voteGranted = true → first.voter = second.voter → first.term = second.term →
    first.candidate = second.candidate
  selfVote : ∀ node term, (cluster.nodes node).election = some term →
    ⟨node, node, term, true⟩ ∈ cluster.replies
  led : ∀ node, (cluster.nodes node).role = .leader →
    Elected cluster.replies node (cluster.nodes node).persistent.currentTerm

variable {cluster : RaftCluster size}

theorem Sound.change (sound : cluster.Sound) {node : Fin size} {next : RaftNode size}
    {sent : List (VoteReply size)}
    (backs : ∀ {term candidate}, (cluster.nodes node).Backs term candidate →
      next.Backs term candidate)
    (isVote : ∀ reply ∈ sent, reply.voter = node ∧ (reply.voteGranted = true →
      next.persistent = ⟨reply.term, some reply.candidate⟩ ∧ next.stored = next.persistent))
    (selfVote : ∀ term, next.election = some term →
      (cluster.nodes node).election = some term ∨ ⟨node, node, term, true⟩ ∈ sent)
    (led : next.role = .leader → Elected cluster.replies node next.persistent.currentTerm) :
    (cluster.change node next sent).Sound := by
  have stays : ∀ {other}, other ≠ node →
      (cluster.change node next sent).nodes other = cluster.nodes other :=
    fun ne => Function.update_of_ne ne ..
  have here : (cluster.change node next sent).nodes node = next := Function.update_self ..
  have allBacked : ∀ reply ∈ sent ++ cluster.replies, reply.voteGranted = true →
      ((cluster.change node next sent).nodes reply.voter).Backs reply.term reply.candidate := by
    intro reply mem granted
    rcases mem_append.mp mem with isNew | isOld
    · obtain ⟨isVoter, isStored⟩ := isVote reply isNew
      obtain ⟨isPersistent, same⟩ := isStored granted
      rw [isVoter, here, Backs, same, isPersistent]
      exact ⟨.inr ⟨rfl, rfl⟩, .inr ⟨rfl, rfl⟩⟩
    · have before := sound.backed reply isOld granted
      by_cases isVoter : reply.voter = node
      · rw [isVoter] at before ⊢
        rw [here]
        exact backs before
      · rw [stays isVoter]
        exact before
  -- A vote that is sent now is the one vote of the term that the node backs.
  have unique : ∀ first ∈ sent, ∀ second ∈ sent ++ cluster.replies, first.voteGranted = true →
      second.voteGranted = true → first.voter = second.voter → first.term = second.term →
      first.candidate = second.candidate := by
    intro first isFirst second isSecond firstGranted secondGranted sameVoter sameTerm
    obtain ⟨isVoter, isStored⟩ := isVote first isFirst
    have backed := (allBacked second isSecond secondGranted).1
    rw [← sameVoter, isVoter, here, (isStored firstGranted).1, ← sameTerm] at backed
    rcases backed with older | ⟨_, voted⟩
    · exact absurd older (lt_irrefl _)
    · exact Option.some.inj voted
  refine ⟨allBacked, ?_, fun other term waits => ?_, fun other isLeader => ?_⟩
  · intro first isFirst second isSecond firstGranted secondGranted sameVoter sameTerm
    rcases mem_append.mp isFirst with firstNew | firstOld
    · exact unique first firstNew second isSecond firstGranted secondGranted sameVoter sameTerm
    · rcases mem_append.mp isSecond with secondNew | secondOld
      · exact (unique second secondNew first isFirst secondGranted firstGranted sameVoter.symm
          sameTerm.symm).symm
      · exact sound.once first firstOld second secondOld firstGranted secondGranted sameVoter
          sameTerm
  · by_cases same : other = node
    · subst same
      rw [here] at waits
      rcases selfVote term waits with waited | isNew
      · exact mem_append_right _ (sound.selfVote other term waited)
      · exact mem_append_left _ isNew
    · rw [stays same] at waits
      exact mem_append_right _ (sound.selfVote other term waits)
  · apply Elected.mono _ (subset_append_right sent cluster.replies)
    by_cases same : other = node
    · subst same
      rw [here] at isLeader ⊢
      exact led isLeader
    · rw [stays same] at isLeader ⊢
      exact sound.led other isLeader

/-- A change under the lock. -/
theorem Sound.changes (sound : cluster.Sound) {node : Fin size} {next : RaftNode size}
    (changes : (cluster.nodes node).Changes next) {sent : List (VoteReply size)}
    (isVote : ∀ reply ∈ sent, reply.voter = node ∧ (reply.voteGranted = true →
      next.persistent = ⟨reply.term, some reply.candidate⟩ ∧ next.stored = next.persistent)) :
    (cluster.change node next sent).Sound := by
  refine sound.change changes.backs isVote (fun term waits => .inl (changes.election waits))
    fun isLeader => ?_
  obtain ⟨wasLeader, sameTerm⟩ := changes.led isLeader
  rw [sameTerm]
  exact sound.led node wasLeader

theorem elected_of_majority {node : Fin size} {term : Nat} {replies : List (VoteReply size)}
    (selfVote : ⟨node, node, term, true⟩ ∈ cluster.replies) (sent : ∀ reply ∈ replies,
      reply ∈ cluster.replies ∧ reply.candidate = node ∧ reply.voter ≠ node)
    (distinct : (replies.map VoteReply.voter).Nodup)
    (enough : majority (size - 1) ≤ (votes term replies).length + 1) :
    Elected cluster.replies node term := by
  have distinctVotes : ((votes term replies).map VoteReply.voter).Nodup :=
    distinct.sublist (filter_sublist.map _)
  have notSelf : node ∉ ((votes term replies).map VoteReply.voter).toFinset := by
    intro mem
    obtain ⟨reply, isVote, isNode⟩ := mem_map.mp (mem_toFinset.mp mem)
    exact (sent reply (mem_of_mem_filter isVote)).2.2 isNode
  refine ⟨insert node ((votes term replies).map VoteReply.voter).toFinset, ?_, ?_⟩
  · rw [Finset.card_insert_of_notMem notSelf, toFinset_card_of_nodup distinctVotes,
      length_map]
    unfold majority at enough
    omega
  · intro voter mem
    rcases Finset.mem_insert.mp mem with rfl | isVoter
    · exact selfVote
    · obtain ⟨reply, isVote, rfl⟩ := mem_map.mp (mem_toFinset.mp isVoter)
      obtain ⟨isReply, counted⟩ := mem_filter.mp isVote
      obtain ⟨isSent, rfl, _⟩ := sent reply isReply
      rw [Bool.and_eq_true, decide_eq_true_eq] at counted
      obtain ⟨granted, rfl⟩ := counted
      rw [← granted]
      exact isSent

theorem Sound.step (sound : cluster.Sound) (taken : RaftStep size) :
    (cluster.step taken).Sound := by
  cases taken with
  | requestVote voter candidate term outcome =>
    obtain ⟨changes, voted⟩ := (cluster.nodes voter).handleRequestVote_spec term candidate
    refine sound.changes (changes.save outcome) fun reply mem => ?_
    split at mem
    · next isSaved =>
      rw [mem_singleton.mp mem, isSaved]
      exact ⟨rfl, fun granted => ⟨voted granted, rfl⟩⟩
    · cases mem
  | heartbeat node term outcome =>
    exact sound.changes (changes_handleHeartbeat _ term outcome) (by simp)
  | startElection node outcome =>
    have backs : ∀ {term candidate}, (cluster.nodes node).Backs term candidate →
        ((cluster.nodes node).startElection node outcome).Backs term candidate := by
      intro term candidate backs
      have raised : Backs { cluster.nodes node with
          persistent := ⟨(cluster.nodes node).persistent.currentTerm + 1, some node⟩
          role := .candidate } term candidate := backs.raise (Nat.lt_succ_self _) rfl
      exact raised.save outcome
    cases outcome with
    | saved =>
      exact sound.change backs
        (fun reply mem => mem_singleton.mp mem ▸ ⟨rfl, fun _ => ⟨rfl, rfl⟩⟩)
        (fun term waits => .inr (Option.some.inj waits ▸ mem_singleton_self _)) nofun
    | failed stored =>
      refine sound.change backs (by simp [startElection]) (fun term waits => ?_) fun led => ?_
      all_goals cases stored
      all_goals first | cases waits | cases led
  | finishElection node replies outcome =>
    simp only [RaftCluster.step]
    split
    · exact sound
    · next term waits =>
      split
      · next fair =>
        have ended : (cluster.nodes node).Changes { cluster.nodes node with election := none } :=
          ⟨id, nofun, fun led => ⟨led, rfl⟩⟩
        unfold RaftNode.finishElection
        dsimp only
        split
        · exact sound.changes ended (by simp)
        · next isCandidate =>
          simp only [not_or, not_not] at isCandidate
          split
          · next higher =>
            have lower : (cluster.nodes node).Changes ({ cluster.nodes node with
                election := none }.stepDownTo (highestTermSeen term replies)) :=
              ⟨fun backs => backs.raise (isCandidate.2.trans_lt higher) rfl, nofun, nofun⟩
            exact sound.changes (lower.save outcome) (by simp)
          · split
            · next enough =>
              refine sound.change (fun backs => backs) (by simp) nofun fun _ => ?_
              rw [isCandidate.2]
              exact elected_of_majority (sound.selfVote node term waits) fair.1 fair.2 enough
            · exact sound.changes ended (by simp)
      · exact sound
  | finishHeartbeats node term highest quorum outcome =>
    exact sound.changes (changes_finishHeartbeats _ term highest quorum outcome) (by simp)
  | stepDown node =>
    exact sound.changes (changes_follower _) (by simp)
  | restart node =>
    exact sound.change (fun backs => ⟨backs.2, backs.2⟩) (by simp) nofun nofun

theorem sound_run (steps : List (RaftStep size)) : (run steps).Sound := by
  induction steps using reverseRecOn with
  | nil =>
    exact ⟨by simp [run, boot], by simp [run, boot], by simp [run, boot], by simp [run, boot]⟩
  | append_singleton steps taken ih =>
    rw [run, foldl_append]
    exact ih.step taken

/-- Over restarts and failed saves, a node grants the votes of one term to one candidate and stands
by them, and a Leader has a majority of the votes of its term. -/
theorem votes_bind (steps : List (RaftStep size)) :
    let cluster := run steps
    (∀ first ∈ cluster.replies, ∀ second ∈ cluster.replies, first.voteGranted →
      second.voteGranted → first.voter = second.voter → first.term = second.term →
      first.candidate = second.candidate) ∧
    (∀ reply ∈ cluster.replies, reply.voteGranted →
      (cluster.nodes reply.voter).Backs reply.term reply.candidate) ∧
    ∀ node, (cluster.nodes node).role = .leader →
      Elected cluster.replies node (cluster.nodes node).persistent.currentTerm := by
  have sound := sound_run steps
  exact ⟨sound.once, sound.backed, sound.led⟩

/-- Two majorities of one term share a voter. -/
theorem Sound.elected_unique (sound : cluster.Sound) {first second : Fin size} {term : Nat}
    (electedFirst : Elected cluster.replies first term)
    (electedSecond : Elected cluster.replies second term) : first = second := by
  obtain ⟨voters, many, voted⟩ := electedFirst
  obtain ⟨others, manyOthers, votedOthers⟩ := electedSecond
  have overlap : (Finset.univ : Finset (Fin size)).card < voters.card + others.card := by
    rw [Finset.card_univ, Fintype.card_fin]
    omega
  obtain ⟨voter, both⟩ := Finset.inter_nonempty_of_card_lt_card_add_card (Finset.subset_univ voters)
    (Finset.subset_univ others) overlap
  obtain ⟨isFirst, isSecond⟩ := Finset.mem_inter.mp both
  exact sound.once _ (voted voter isFirst) _ (votedOthers voter isSecond) rfl rfl rfl rfl

theorem replies_step (taken : RaftStep size) : cluster.replies ⊆ (cluster.step taken).replies := by
  have grows : ∀ node next sent, cluster.replies ⊆ (cluster.change node next sent).replies :=
    fun _ _ sent => subset_append_right sent cluster.replies
  cases taken with
  | finishElection node replies outcome =>
    simp only [step]
    split <;> (try split)
    all_goals first | exact grows _ _ _ | exact List.Subset.refl _
  | _ => exact grows _ _ _

theorem replies_run (cluster : RaftCluster size) (steps : List (RaftStep size)) :
    cluster.replies ⊆ (steps.foldl step cluster).replies := by
  induction steps generalizing cluster with
  | nil => exact List.Subset.refl _
  | cons taken rest ih => exact List.Subset.trans (replies_step taken) (ih _)

/-- In every run of a cluster of any size, two nodes that are Leader in one term, at the same time
or at different times, are the same node. -/
theorem one_leader_per_term (steps later : List (RaftStep size)) (first second : Fin size)
    (leads : ((run steps).nodes first).role = .leader)
    (leadsLater : ((run (steps ++ later)).nodes second).role = .leader)
    (sameTerm : ((run steps).nodes first).persistent.currentTerm =
      ((run (steps ++ later)).nodes second).persistent.currentTerm) : first = second := by
  have grows : (run steps).replies ⊆ (run (steps ++ later)).replies := by
    rw [run, run, foldl_append]
    exact replies_run _ later
  have electedFirst := ((sound_run steps).led first leads).mono grows
  rw [sameTerm] at electedFirst
  exact (sound_run (steps ++ later)).elected_unique electedFirst
    ((sound_run (steps ++ later)).led second leadsLater)

/-- One node of three is elected with the vote of another one. -/
def electionSample : List (RaftStep 3) :=
  [.startElection 0 .saved, .requestVote 1 0 1 .saved, .finishElection 0 [⟨1, 0, 1, true⟩] .saved]

theorem one_leader_per_term_sample : ((run electionSample).nodes 0).role = .leader ∧
    ∀ node, ((run (electionSample ++ [.restart 2])).nodes node).role = .leader →
      ((run (electionSample ++ [.restart 2])).nodes node).persistent.currentTerm = 1 →
        0 = node := by
  have leads : ((run electionSample).nodes 0).role = .leader := by decide
  exact ⟨leads, fun node leadsLater isFirst =>
    one_leader_per_term electionSample [.restart 2] 0 node leads leadsLater isFirst.symm⟩

end RaftCluster

end RockStream
