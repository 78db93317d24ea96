import AuraDb.Raft.Lawful
import AuraDb.Raft.Node

/-! Elections. A node casts at most one vote in a term and keeps it over restarts, so two nodes never lead the
same term. Nothing is assumed of the log. Saves may fail, except where a node becomes a candidate: there the
result is not looked at. -/
namespace AuraDb.Raft
open Std RaftStorage Library.Consensus Library.TreeMap

section
theorem RaftConfig.majority_of_count {config : RaftConfig} {voters : List NodeId} {β : Type}
    {answers : ExtTreeMap NodeId β compare} {p : β → Bool} {P : NodeId → Prop} (size : config.voters = voters.length)
    (counted : ∀ (j : NodeId) b, answers[j]? = some b → p b = true → j ∈ voters ∧ P j)
    (enough : config.majority ≤ answers.toList.countP (fun e => p e.2)) : Majority voters P := by
  classical
  have within : answers.toList.countP (fun e => p e.2) ≤ (voters.filter (fun j => decide (P j))).length := by
    apply countP_le_of_keys
    intro j b found yes
    obtain ⟨member,holds⟩ := counted j b found yes
    exact List.mem_filter.mpr ⟨member,decide_eq_true holds⟩
  rw [RaftConfig.majority,size] at enough
  apply Majority.of_filter
  omega

variable {S : Type} [RaftStorage S] {id : NodeId} {voters : List NodeId} {cast : Ballots}

namespace RaftNode

/-- What replication leaves alone: the role, the votes held, the term and the vote
cast; and no vote is granted. -/
structure Keeps (n n' : RaftNode S) : Prop where
  config : n'.config = n.config
  role : n'.role = n.role
  votes : n'.votes = n.votes
  term : n'.term = n.term
  votedFor : (hardState n'.storage).votedFor = (hardState n.storage).votedFor
  outbox : ∀ e ∈ n'.outbox, e ∈ n.outbox ∨ ∀ t, e.message ≠ .requestVoteResp t true

variable {n n' n'' : RaftNode S}

theorem Keeps.refl (n : RaftNode S) : Keeps n n := ⟨rfl,rfl,rfl,rfl,rfl,fun _ => .inl⟩

theorem Keeps.trans (first : Keeps n n') (second : Keeps n' n'') : Keeps n n'' where
  config := second.config.trans first.config
  role := second.role.trans first.role
  votes := second.votes.trans first.votes
  term := second.term.trans first.term
  votedFor := second.votedFor.trans first.votedFor
  outbox e inside := (second.outbox e inside).elim (first.outbox e) .inr

theorem Keeps.of_eq (config : n'.config = n.config) (storage : n'.storage = n.storage)
    (role : n'.role = n.role) (votes : n'.votes = n.votes) (outbox : n'.outbox = n.outbox) : Keeps n n' where
  config := config
  role := role
  votes := votes
  term := by rw [RaftNode.term,RaftNode.term,storage]
  votedFor := by rw [storage]
  outbox e inside := .inl (outbox ▸ inside)

theorem keeps_send (n : RaftNode S) (recipient : NodeId) (message : Message)
    (other : ∀ t, message ≠ .requestVoteResp t true) : Keeps n (n.send recipient message) where
  config := rfl
  role := rfl
  votes := rfl
  term := rfl
  votedFor := rfl
  outbox e inside := by
    rcases List.mem_append.mp inside with old | new
    · exact .inl old
    · rw [List.mem_singleton.mp new]
      exact .inr other

section Lawful
variable [LawfulHardState S]
section
variable (n : RaftNode S)
section
variable (term : Nat) (leader : Option NodeId)
include term leader

theorem becomeFollower_eq : n.becomeFollower term leader = ({ n with
      storage := if n.term < term then
          (RaftStorage.saveHardState n.storage
            { hardState n.storage with currentTerm := term, votedFor := none }).1
        else n.storage
      role := .follower
      leaderId := leader.or n.leaderId
      votes := ∅ },.ok ()) := by
  unfold becomeFollower
  by_cases newer : term > (hardState n.storage).currentTerm
  · have entered : n.term < term := newer
    simp [newer,entered,RaftNode.saveHardState]
  · have same : ¬ n.term < term := newer
    simp [newer,same]

theorem becomeFollower_ok : (n.becomeFollower term leader).2 = .ok () := by
  rw [becomeFollower_eq]

theorem term_becomeFollower : (n.becomeFollower term leader).1.term = max n.term term := by
  rw [becomeFollower_eq]
  by_cases newer : n.term < term
  · rw [if_pos newer]
    simp only [RaftNode.term,LawfulHardState.hardState_save] at newer ⊢
    omega
  · rw [if_neg newer]
    simp only [RaftNode.term] at newer ⊢
    omega

end

theorem persistCommitIndex_ok : n.persistCommitIndex.2 = .ok () := by
  unfold persistCommitIndex
  dsimp only
  split
  · simp [RaftNode.saveHardState]
  · rfl

theorem maybeAdvanceCommit_ok : n.maybeAdvanceCommit.2 = .ok () := by
  unfold maybeAdvanceCommit
  dsimp only
  split
  · exact persistCommitIndex_ok _
  · rfl

end

end Lawful

theorem outbox_persistCommitIndex (n : RaftNode S) : n.persistCommitIndex.1.outbox = n.outbox := by
  unfold persistCommitIndex
  dsimp only
  split <;> rfl

theorem commitIndex_persistCommitIndex (n : RaftNode S) : n.persistCommitIndex.1.commitIndex = n.commitIndex := by
  unfold persistCommitIndex
  dsimp only
  split <;> rfl

theorem Keeps.of_storage {s : S} (same : hardState s = hardState n.storage) : Keeps n { n with storage := s } :=
  ⟨rfl,rfl,rfl,by simp [RaftNode.term,same],by simp [same],fun _ => .inl⟩

variable [FallibleHardState S]

theorem keeps_saveHardState (n : RaftNode S) {hs : HardState} (term : hs.currentTerm = n.term)
    (vote : hs.votedFor = (hardState n.storage).votedFor) : Keeps n (n.saveHardState hs).1 := by
  rcases FallibleHardState.save_cases n.storage hs with ⟨-,saved⟩ | ⟨-,same⟩
  · exact ⟨rfl,rfl,rfl,by simpa [RaftNode.saveHardState,RaftNode.term,saved] using term,
      by simpa [RaftNode.saveHardState,saved] using vote,fun _ => .inl⟩
  · exact .of_storage same

theorem keeps_commit (n : RaftNode S) (index : Nat) : Keeps n (persistCommitIndex { n with commitIndex := index }).1 := by
  unfold persistCommitIndex
  dsimp only
  split
  · refine Keeps.trans ?_ (keeps_saveHardState _ rfl rfl)
    exact .of_eq rfl rfl rfl rfl rfl
  · exact .of_eq rfl rfl rfl rfl rfl

theorem replicates_keeps (n : RaftNode S) : Replicates (Keeps n) where
  track _ _ kept := kept.trans (.of_eq rfl rfl rfl rfl rfl)
  offer peer kept := kept.trans (keeps_send _ peer _ (by simp))
  append entries kept := kept.trans (.of_storage (FallibleHardState.hardState_append _ entries))
  commit _ kept := kept.trans (keeps_commit _ _)

theorem keeps_appendOwn (n : RaftNode S) (command : Command) : Keeps n (n.appendOwn command).1 :=
  n.replicates_keeps.appendOwn (.refl n) command

theorem hardState_storeEntries (s : S) (entries : List LogEntry) :
    hardState (storeEntries s entries).1 = hardState s :=
  storeEntries_rule (P := fun s' => hardState s' = hardState s)
    (fun _ _ same => (FallibleHardState.hardState_append ..).trans same)
    (fun _ _ same => (FallibleHardState.hardState_truncate ..).trans same) rfl entries

end RaftNode

def RaftNode.ballot (n : RaftNode S) : HardState :=
  { hardState n.storage with currentTerm := (hardState n.storage).currentTerm + 1, votedFor := some n.config.id }

def RaftNode.BallotSaved (n : RaftNode S) : Prop := (RaftStorage.saveHardState n.storage n.ballot).2 = .ok ()

def RaftNode.TimesOut (n : RaftNode S) : Prop :=
  n.role ≠ .leader ∧ n.electionElapsed + 1 ≥ n.randomizedElectionTimeout

theorem RaftNode.hardState_ballot [FallibleHardState S] (n : RaftNode S) (ok : n.BallotSaved) :
    hardState (RaftStorage.saveHardState n.storage { hardState n.storage with
      currentTerm := (hardState n.storage).currentTerm + 1, votedFor := some n.config.id }).1 = n.ballot := by
  rcases FallibleHardState.save_cases n.storage n.ballot with ⟨-,saved⟩ | ⟨⟨e,failed⟩,-⟩
  · exact saved
  · rw [RaftNode.BallotSaved,failed] at ok
    cases ok

def Cluster.BallotsSaved (c : Cluster S) : ClusterAct → Prop
  | .tick id => ∀ n, c.nodes[id]? = some n → n.TimesOut → n.BallotSaved
  | .campaign id => ∀ n, c.nodes[id]? = some n → n.BallotSaved
  | _ => True

theorem Cluster.ballotsSaved [LawfulHardState S] (c : Cluster S) (act : ClusterAct) : c.BallotsSaved act := by
  cases act with
  | tick id => exact fun n _ _ => LawfulHardState.save_ok ..
  | campaign id => exact fun n _ => LawfulHardState.save_ok ..
  | _ => trivial

abbrev Ballots := NodeId → Nat → Option NodeId

/-- The record of the node's own votes is complete, and the votes it holds, the lead it took and the grants it
sends are on record. -/
structure Voting (voters : List NodeId) (cast : Ballots) (id : NodeId) (n : RaftNode S) : Prop where
  self : n.config.id = id
  size : n.config.voters = voters.length
  member : id ∈ voters
  current : cast id n.term = (hardState n.storage).votedFor
  later : ∀ t, n.term < t → cast id t = none
  counted : n.role ≠ .follower →
    ∀ j : NodeId, n.votes[j]? = some true → j ∈ voters ∧ cast j n.term = some id
  leader : n.role = .leader → Majority voters (fun j => cast j n.term = some id)
  outbox : ∀ e ∈ n.outbox, ∀ t, e.message = .requestVoteResp t true → cast id t = some e.recipient

/-- Only the one node votes, and nothing on record changes. -/
structure Extends (cast cast' : Ballots) (id : NodeId) : Prop where
  others : ∀ j, j ≠ id → cast' j = cast j
  kept : ∀ j t c, cast j t = some c → cast' j t = some c

theorem Extends.refl (cast : Ballots) (id : NodeId) : Extends cast cast id := ⟨fun _ _ => rfl,fun _ _ _ same => same⟩

theorem Extends.vote {cast : Ballots} {t : Nat} (free : cast id t = none) (c : NodeId) :
    Extends cast (Function.update cast id (Function.update (cast id) t (some c))) id where
  others j other := by simp [other]
  kept j u d voted := by
    rcases eq_or_ne j id with rfl | other
    · rcases eq_or_ne u t with rfl | different
      · simp [free] at voted
      · simpa [different] using voted
    · simpa [other] using voted

namespace Voting
variable {cast' : Ballots} {other : NodeId} {n n' : RaftNode S}

theorem mono (voting : Voting voters cast other n) (extends' : Extends cast cast' id) (different : other ≠ id) :
    Voting voters cast' other n where
  self := voting.self
  size := voting.size
  member := voting.member
  current := by rw [extends'.others other different,voting.current]
  later := by
    rw [extends'.others other different]
    exact voting.later
  counted role j held := by
    obtain ⟨member,voted⟩ := voting.counted role j held
    exact ⟨member,extends'.kept _ _ _ voted⟩
  leader role := (voting.leader role).mono (fun j _ voted => extends'.kept _ _ _ voted)
  outbox e inside t granted := extends'.kept _ _ _ (voting.outbox e inside t granted)

section
variable (voting : Voting voters cast id n)
include voting

theorem keeps (keeps : n.Keeps n') : Voting voters cast id n' where
  self := by rw [keeps.config,voting.self]
  size := by rw [keeps.config,voting.size]
  member := voting.member
  current := by rw [keeps.term,keeps.votedFor,voting.current]
  later := by
    rw [keeps.term]
    exact voting.later
  counted role := by
    rw [keeps.votes,keeps.term]
    exact voting.counted (keeps.role ▸ role)
  leader role := by
    rw [keeps.term]
    exact voting.leader (keeps.role ▸ role)
  outbox e inside t granted := by
    rcases keeps.outbox e inside with old | other
    · exact voting.outbox e old t granted
    · exact absurd granted (other t)

theorem majority_of_votes (held : ∀ j : NodeId, n.votes[j]? = some true → j ∈ voters ∧ cast j n.term = some id)
    (enough : n.config.majority ≤ n.votes.toList.countP (fun p => p.2)) :
    Majority voters (fun j => cast j n.term = some id) := by
  apply RaftConfig.majority_of_count (p := fun granted => granted) voting.size _ enough
  intro j granted found yes
  exact held j (yes ▸ found)

theorem requestVotes (peers : List NodeId) (message : Message) (other : ∀ t, message ≠ .requestVoteResp t true) :
    Voting voters cast id (peers.foldl (fun m peer => m.send peer message) n) :=
  List.foldlRecOn _ _ voting (fun m held peer _ => held.keeps (RaftNode.keeps_send m peer message other))

theorem restart : Voting voters cast id (RaftNode.new n.config n.storage) :=
  { voting with counted := fun role => absurd rfl role, leader := nofun, outbox := nofun }

end

variable [FallibleHardState S] {sender : NodeId}
section
variable (voting : Voting voters cast id n)
include voting

theorem becomeFollower (term : Nat) (leader : Option NodeId) :
    Voting voters cast id (n.becomeFollower term leader).1 := by
  unfold RaftNode.becomeFollower
  dsimp only
  by_cases newer : term > (hardState n.storage).currentTerm
  · rw [if_pos newer]
    rcases FallibleHardState.save_cases n.storage { hardState n.storage with currentTerm := term, votedFor := none }
      with ⟨ok,saved⟩ | ⟨⟨e,failed⟩,same⟩
    · simp only [RaftNode.saveHardState,ok]
      refine ⟨voting.self,voting.size,voting.member,?_,?_,by simp,by simp,voting.outbox⟩
      · simpa [RaftNode.term,saved] using voting.later term newer
      · intro t after
        simp only [RaftNode.term,saved] at after
        exact voting.later t (newer.trans after)
    · simp only [RaftNode.saveHardState,failed]
      exact voting.keeps (.of_storage same)
  · rw [if_neg newer]
    exact { voting with counted := by simp, leader := by simp }

theorem becomeLeader (stands : n.role = .candidate)
    (enough : n.config.majority ≤ n.votes.toList.countP (fun p => p.2)) : Voting voters cast id n.becomeLeader.1 := by
  have held := voting.counted (by simp [stands])
  have leads : Voting voters cast id n.lead :=
    { voting with counted := fun _ => held, leader := fun _ => voting.majority_of_votes held enough }
  rw [RaftNode.becomeLeader_fst]
  exact leads.keeps (RaftNode.keeps_appendOwn _ .noop)

theorem handleVoteResp {term : Nat} {granted : Bool} (member : sender ∈ voters)
    (recorded : granted = true → cast sender term = some id) :
    Voting voters cast id (n.handleVoteResp sender term granted).1 := by
  unfold RaftNode.handleVoteResp
  split
  · exact voting
  rename_i standing
  simp only [not_or,not_not] at standing
  obtain ⟨role,rfl⟩ := standing
  have held : ∀ j : NodeId, (n.votes.insert sender granted)[j]? = some true →
      j ∈ voters ∧ cast j n.term = some id := by
    intro j found
    apply forall_insert (P := fun j yes => yes = true → j ∈ voters ∧ cast j n.term = some id)
      _ _ j true found rfl
    · exact fun yes => ⟨member,recorded yes⟩
    · rintro j _ - found rfl
      exact voting.counted (by simp [role]) j found
  have counted : Voting voters cast id { n with votes := n.votes.insert sender granted } :=
    { voting with counted := fun _ => held }
  dsimp only
  split
  · rename_i enough
    exact counted.becomeLeader role enough
  · exact counted

theorem handleRequestVote (sender : NodeId) (term lastLogIndex lastLogTerm : Nat) : ∃ cast', Extends cast cast' id ∧
      Voting voters cast' id (n.handleRequestVote sender term lastLogIndex lastLogTerm).1 := by
  unfold RaftNode.handleRequestVote
  dsimp only
  split
  · rename_i grants
    obtain ⟨notOlder,canVote,-⟩ := grants
    rcases FallibleHardState.save_cases n.storage { hardState n.storage with votedFor := some sender }
      with ⟨ok,saved⟩ | ⟨⟨e,failed⟩,same⟩
    swap
    · simp only [RaftNode.saveHardState,failed]
      exact ⟨cast,.refl cast id,voting.keeps (.of_storage same)⟩
    simp only [RaftNode.saveHardState,ok]
    -- A node that already voted for the sender votes for it again.
    have voted : ∃ cast', Extends cast cast' id ∧ cast' id n.term = some sender ∧
        ∀ t, n.term < t → cast' id t = none := by
      rcases canVote with free | again
      · have unused : cast id n.term = none := by rw [voting.current,free]
        refine ⟨_,.vote unused sender,by simp,?_⟩
        intro t after
        simpa [Nat.ne_of_gt after] using voting.later t after
      · exact ⟨cast,.refl cast id,by rw [voting.current,again],voting.later⟩
    obtain ⟨cast',more,recorded,unused⟩ := voted
    refine ⟨cast',more,voting.self,voting.size,voting.member,?_,?_,?_,?_,?_⟩
    all_goals simp only [RaftNode.send,RaftNode.term,saved]
    · exact recorded
    · exact unused
    · intro role j held
      obtain ⟨member,vote⟩ := voting.counted role j held
      exact ⟨member,more.kept _ _ _ vote⟩
    · intro role
      exact (voting.leader role).mono (fun j _ vote => more.kept _ _ _ vote)
    · intro e inside t granted
      rcases List.mem_append.mp inside with old | new
      · exact more.kept _ _ _ (voting.outbox e old t granted)
      · rw [List.mem_singleton.mp new] at granted ⊢
        cases granted
        exact recorded
  · exact ⟨cast,.refl cast id,voting.keeps (RaftNode.keeps_send n sender _ (by simp))⟩

theorem stand (ok : n.BallotSaved) : ∃ cast', Extends cast cast' id ∧ Voting voters cast' id n.stand := by
  have saved := n.hardState_ballot ok
  have free := voting.later (n.term + 1) (Nat.lt_succ_self _)
  have more := Extends.vote free id
  refine ⟨_,more,voting.self,voting.size,voting.member,?_,?_,?_,?_,?_⟩
  all_goals simp only [RaftNode.stand,RaftNode.saveHardState,RaftNode.resetElectionTimeout,RaftNode.term,saved,
    RaftNode.ballot]
  · rw [voting.self]
    simp
  · intro t after
    have different : t ≠ (hardState n.storage).currentTerm + 1 := Nat.ne_of_gt after
    simpa [different] using voting.later t (Nat.lt_of_succ_lt after)
  · intro _ j held
    rw [n.own_vote_stand held,voting.self]
    exact ⟨voting.member,by simp⟩
  · simp
  · intro e inside t granted
    exact more.kept _ _ _ (voting.outbox e inside t granted)

theorem campaign (ok : n.BallotSaved) : ∃ cast', Extends cast cast' id ∧ Voting voters cast' id n.campaign := by
  obtain ⟨cast',more,stands⟩ := voting.stand ok
  refine ⟨cast',more,?_⟩
  unfold RaftNode.campaign
  dsimp only
  split
  · rename_i alone
    exact stands.becomeLeader rfl (alone.trans n.one_vote_stand)
  · exact stands.requestVotes _ _ (by simp)

theorem handleAppendEntries (sender : NodeId) (term prevLogIndex prevLogTerm : Nat) (entries : List LogEntry)
    (leaderCommit : Nat) : Voting voters cast id
      (n.handleAppendEntries sender term prevLogIndex prevLogTerm entries leaderCommit).1 := by
  unfold RaftNode.handleAppendEntries
  split
  · exact voting.keeps (RaftNode.keeps_send n sender _ (by simp))
  · have followed := voting.becomeFollower term (some sender)
    split
    · rename_i m e failed
      rwa [failed] at followed
    · rename_i m done
      rw [done] at followed
      have waits : m.Keeps { m with electionElapsed := 0 } := .of_eq rfl rfl rfl rfl rfl
      have stored := waits.trans (.of_storage (RaftNode.hardState_storeEntries m.storage entries))
      exact followed.keeps (RaftNode.acceptEntries_rule _ _ _ _ _ _ waits stored
        (fun _ => stored.trans (RaftNode.keeps_commit _ _))
        (fun _ _ _ kept => kept.trans (RaftNode.keeps_send _ _ _ (by simp))))

end

section
variable (voting : Voting voters cast id n)
include voting

theorem step {message : Message} (member : sender ∈ voters)
    (recorded : ∀ t, message = .requestVoteResp t true → cast sender t = some id) :
    ∃ cast', Extends cast cast' id ∧ Voting voters cast' id (n.step sender message).1 := by
  have entered : Voting voters cast id (if messageTerm message > n.term then
      n.becomeFollower (messageTerm message) none else (n,.ok ())).1 := by
    split
    · exact voting.becomeFollower (messageTerm message) none
    · exact voting
  unfold RaftNode.step
  revert entered
  intro voting
  dsimp only at voting ⊢
  split
  · exact ⟨cast,.refl cast id,voting⟩
  cases message with
  | requestVote term lastLogIndex lastLogTerm =>
    exact voting.handleRequestVote sender term lastLogIndex lastLogTerm
  | requestVoteResp term granted =>
    refine ⟨cast,.refl cast id,voting.handleVoteResp member ?_⟩
    rintro rfl
    exact recorded term rfl
  | appendEntries term prevLogIndex prevLogTerm entries leaderCommit =>
    exact ⟨cast,.refl cast id,voting.handleAppendEntries sender term prevLogIndex prevLogTerm entries leaderCommit⟩
  | appendEntriesResp term success matchIndex =>
    exact ⟨cast,.refl cast id,voting.keeps ((RaftNode.replicates_keeps _).handleAppendResp (.refl _) ..)⟩

theorem tick (ok : n.TimesOut → n.BallotSaved) : ∃ cast', Extends cast cast' id ∧ Voting voters cast' id n.tick := by
  have waited : Voting voters cast id { n with electionElapsed := n.electionElapsed + 1 } :=
    voting.keeps (.of_eq rfl rfl rfl rfl rfl)
  unfold RaftNode.tick
  split
  · refine ⟨cast,.refl cast id,?_⟩
    dsimp only
    split
    · exact voting.keeps ((RaftNode.replicates_keeps n).broadcastAppend (.of_eq rfl rfl rfl rfl rfl))
    · exact voting.keeps (.of_eq rfl rfl rfl rfl rfl)
  all_goals
    rename_i role
    dsimp only
    split
    · rename_i expired
      exact waited.campaign (ok ⟨by simp [role],expired⟩)
    · exact ⟨cast,.refl cast id,waited⟩

theorem propose (command : Command) : Voting voters cast id (n.propose command).1 := by
  unfold RaftNode.propose
  split
  · exact voting
  · exact voting.keeps (RaftNode.keeps_appendOwn n command)

end

end Voting

/-- Every node, every packet and every lead shown is covered by the record of the votes. -/
structure Elections (voters : List NodeId) (cast : Ballots) (shown : List Seen) (c : Cluster S) : Prop where
  node : ∀ (id : NodeId) (n : RaftNode S), c.nodes[id]? = some n → Voting voters cast id n
  packet : ∀ p ∈ c.sent, p.sender ∈ voters ∧
    ∀ t, p.message = .requestVoteResp t true → cast p.sender t = some p.recipient
  led : ∀ id t, .leads id t ∈ shown → Majority voters (fun j => cast j t = some id)

namespace Elections
variable {shown : List Seen} {c : Cluster S} {c' : Cluster S} {seen : List Seen}

private theorem replace (held : Elections voters cast shown c) {cast' : Ballots}
    {n n' : RaftNode S} (more : Extends cast cast' id) (voting : Voting voters cast' id n') :
    Elections voters cast' (shown ++ Cluster.leadership id n n') { c with nodes := c.nodes.insert id n' } where
  node := forall_insert voting (fun j m different found => (held.node j m found).mono more different)
  packet p inside := by
    obtain ⟨member,recorded⟩ := held.packet p inside
    exact ⟨member,fun t granted => more.kept _ _ _ (recorded t granted)⟩
  led j t seen := by
    rcases List.mem_append.mp seen with old | new
    · exact (held.led j t old).mono (fun _ _ voted => more.kept _ _ _ voted)
    · unfold Cluster.leadership at new
      split at new
      · rename_i leads
        cases List.mem_singleton.mp new
        exact voting.leader leads.1
      · simp at new

private theorem call (held : Elections voters cast shown c) {f : RaftNode S → RaftNode S}
    (taken : c.call id f = some (c',seen)) (voting : ∀ n, c.nodes[id]? = some n → Voting voters cast id n →
      ∃ cast', Extends cast cast' id ∧ Voting voters cast' id (f n)) :
    ∃ cast', Elections voters cast' (shown ++ seen) c' := by
  unfold Cluster.call at taken
  split at taken
  · cases taken
  rename_i n found
  cases taken
  obtain ⟨cast',more,voted⟩ := voting n found (held.node id n found)
  exact ⟨cast',held.replace more voted⟩

variable [FallibleHardState S]

theorem step (held : Elections voters cast shown c) {act : ClusterAct}
    (taken : c.step act = some (c',seen)) (saved : c.BallotsSaved act) :
    ∃ cast', Elections voters cast' (shown ++ seen) c' := by
  cases act with
  | tick id => exact held.call taken (fun n found voting => voting.tick (saved n found))
  | campaign id => exact held.call taken (fun n found voting => voting.campaign (saved n found))
  | propose id command =>
    exact held.call taken (fun n _ voting => ⟨cast,.refl cast id,voting.propose command⟩)
  | restart id => exact held.call taken (fun n _ voting => ⟨cast,.refl cast id,voting.restart⟩)
  | deliver position =>
    simp only [Cluster.step] at taken
    split at taken
    · cases taken
    · rename_i packet found
      obtain ⟨member,recorded⟩ := held.packet packet (List.mem_of_getElem? found)
      exact held.call taken (fun n _ voting => voting.step member recorded)
  | collect id =>
    simp only [Cluster.step,RaftNode.takeMessages] at taken
    split at taken
    · cases taken
    rename_i n found
    cases taken
    have voting := held.node id n found
    have emptied : Voting voters cast id { n with outbox := [] } := { voting with outbox := by simp }
    have replaced := held.replace (n := n) (.refl cast id) emptied
    refine ⟨cast,replaced.node,?_,by simpa using held.led⟩
    intro p inside
    rcases List.mem_append.mp inside with old | new
    · exact held.packet p old
    · obtain ⟨e,queued,rfl⟩ := List.mem_map.mp new
      exact ⟨voting.member,voting.outbox e queued⟩
  | takeCommitted id =>
    simp only [Cluster.step,RaftNode.takeCommitted] at taken
    split at taken
    · cases taken
    rename_i n found
    cases taken
    have advanced : Voting voters cast id { n with lastApplied := n.commitIndex } :=
      (held.node id n found).keeps (.of_eq rfl rfl rfl rfl rfl)
    have replaced := held.replace (n := n) (.refl cast id) advanced
    exact ⟨cast,replaced.node,replaced.packet,by simpa using held.led⟩

end Elections

theorem Cluster.nodes_start (voters : List NodeId) (config : NodeId → RaftConfig) (storage : NodeId → S)
    (id : NodeId) : (Cluster.start voters config storage).nodes[id]? =
      if id ∈ voters then some (RaftNode.new (config id) (storage id)) else none := by
  rw [Cluster.start,getElem?_foldl_insert]
  simp

section
variable {config : NodeId → RaftConfig} (shared : Shared voters config)
include shared

theorem Shared.voters_eq (member : id ∈ voters) : (config id).voters = voters.length := by
  rw [RaftConfig.voters,(shared id member).2.length_eq,List.length_erase_of_mem member]
  have some := List.length_pos_of_mem member
  omega

theorem Elections.start (storage : NodeId → S) : Elections voters
      (fun id t => if t = (hardState (storage id)).currentTerm then (hardState (storage id)).votedFor else none)
      [] (Cluster.start voters config storage) where
  node id n found := by
    rw [Cluster.nodes_start] at found
    split at found
    · rename_i member
      cases found
      refine ⟨(shared id member).1,shared.voters_eq member,member,?_,?_,?_,?_,?_⟩
      · exact if_pos rfl
      · intro t after
        exact if_neg (Nat.ne_of_gt after)
      · exact fun role => absurd rfl role
      · intro role
        cases role
      · intro e inside
        cases inside
    · cases found
  packet p inside := by cases inside
  led id t seen := by cases seen

end

/-- At most one node ever becomes leader of a term, whatever is delivered, lost,
repeated or restarted. -/
theorem election_safety [LawfulHardState S] {voters : List NodeId} {config : NodeId → RaftConfig}
    (shared : Shared voters config) (storage : NodeId → S) {shown : List Seen} {c : Cluster S}
    (run : Library.Run Cluster.step (fun _ _ => True) (Cluster.start voters config storage) shown c)
    {first second : NodeId} {term : Nat} (one : .leads first term ∈ shown) (two : .leads second term ∈ shown) :
    first = second := by
  have held : ∃ cast, Elections voters cast shown c := by
    apply run.invariant (fun shown c => ∃ cast, Elections voters cast shown c)
    · exact ⟨_,Elections.start shared storage⟩
    · intro shown c act c' seen ⟨cast,held⟩ _ taken
      exact held.step taken (c.ballotsSaved act)
  obtain ⟨cast,held⟩ := held
  obtain ⟨voter,forFirst,forSecond⟩ := (held.led first term one).meet (held.led second term two)
  simpa [forFirst] using forSecond

def trio (id : NodeId) : RaftConfig := ⟨id,[1,2,3].erase id,10,20,3⟩

theorem trio_shared : Shared [1,2,3] trio := by
  intro id _
  exact ⟨rfl,.refl _⟩

theorem election_safety_trio : ∃ shown c, Library.Run Cluster.step (fun _ _ => True)
      (Cluster.start [1,2,3] trio (fun _ => ({} : MemStorage))) shown c ∧
    .leads 1 1 ∈ shown ∧ ∀ other, .leads other 1 ∈ shown → other = 1 := by
  obtain ⟨c,shown,run,leads⟩ := Library.Run.exists_free Cluster.step
    [.campaign 1,.collect 1,.deliver 0,.collect 2,.deliver 2] (Cluster.start [1,2,3] trio (fun _ => ({} : MemStorage)))
    (fun _ shown => Seen.leads 1 1 ∈ shown) (by decide +kernel)
  exact ⟨shown,c,run,leads,fun other leads' => election_safety trio_shared _ run leads' leads⟩

end

/-! Elections on disks that fail. A voter that cannot save answers nothing; a candidate does not look at the
result, so it counts a vote in a term where it may have voted otherwise. -/

/-- A storage that follows a plan: the next saves fail where it says so, and succeed once
it is used up. -/
structure Flaky (S : Type) where
  store : S
  plan : List Bool

variable {S : Type} [RaftStorage S]

namespace Flaky

def saveHardState (s : Flaky S) (hs : HardState) : Flaky S × RaftResult Unit :=
  if s.plan.head? = some true then (⟨s.store,s.plan.tail⟩,.error (.io "raft-state.json.tmp" "write failed"))
  else
    let (store,result) := RaftStorage.saveHardState s.store hs
    (⟨store,s.plan.tail⟩,result)

instance : RaftStorage (Flaky S) where
  append s entries := (⟨(append s.store entries).1,s.plan⟩,(append s.store entries).2)
  truncateFrom s index := (⟨(truncateFrom s.store index).1,s.plan⟩,(truncateFrom s.store index).2)
  termAt s := termAt s.store
  entryAt s := entryAt s.store
  entriesFrom s := entriesFrom s.store
  lastIndex s := lastIndex s.store
  lastTerm s := lastTerm s.store
  saveHardState := saveHardState
  hardState s := hardState s.store

instance [LawfulHardState S] : FallibleHardState (Flaky S) where
  save_cases s hs := by
    change (s.saveHardState hs).2 = _ ∧ hardState (s.saveHardState hs).1.store = hs ∨
      (∃ e, (s.saveHardState hs).2 = .error e) ∧ hardState (s.saveHardState hs).1.store = hardState s.store
    unfold saveHardState
    split
    · exact .inr ⟨⟨_,rfl⟩,rfl⟩
    · exact .inl ⟨LawfulHardState.save_ok s.store hs,LawfulHardState.hardState_save s.store hs⟩
  hardState_append s entries := LawfulHardState.hardState_append s.store entries
  hardState_truncate s i := LawfulHardState.hardState_truncate s.store i

end Flaky

inductive FlakyAct where
  | act (a : ClusterAct)
  | plan (id : NodeId) (fails : List Bool)

/-- Between two actions a disk may change its mind. -/
def Cluster.flakyStep (c : Cluster (Flaky S)) : FlakyAct → Option (Cluster (Flaky S) × List Seen)
  | .act a => c.step a
  | .plan id fails => match c.nodes[id]? with
    | none => none
    | some n => some ({ c with nodes := c.nodes.insert id { n with storage := { n.storage with plan := fails } } },[])

/-- A node that becomes a candidate can save its new term and its own vote. -/
def CandidacySaved (c : Cluster (Flaky S)) : FlakyAct → Prop
  | .act a => c.BallotsSaved a
  | .plan _ _ => True

section Runs
variable [LawfulHardState S] {voters : List NodeId} {cast : Ballots} {shown : List Seen} {c c' : Cluster (Flaky S)}

theorem Elections.flakyStep (held : Elections voters cast shown c) {act : FlakyAct} {seen : List Seen}
    (taken : c.flakyStep act = some (c',seen)) (saved : CandidacySaved c act) :
    ∃ cast', Elections voters cast' (shown ++ seen) c' := by
  cases act with
  | act a => exact held.step taken saved
  | plan id fails =>
    simp only [Cluster.flakyStep] at taken
    split at taken
    · cases taken
    rename_i n found
    cases taken
    have voting := held.node id n found
    have planned : Voting voters cast id { n with storage := { n.storage with plan := fails } } :=
      { voting with }
    refine ⟨cast,?_,held.packet,by simpa using held.led⟩
    exact Library.TreeMap.forall_insert planned (fun j m _ found => held.node j m found)

/-- Where only saves of new candidates have to succeed: at most one node leads a term, and a vote that a
candidate or leader counts is saved by its voter, or the voter has since saved a newer term. -/
theorem election_safety_failing_saves {config : NodeId → RaftConfig} (shared : Shared voters config)
    (storage : NodeId → Flaky S)
    (run : Library.Run Cluster.flakyStep CandidacySaved (Cluster.start voters config storage) shown c) :
    (∀ first second term, .leads first term ∈ shown → .leads second term ∈ shown → first = second) ∧
    ∀ (id j : NodeId) (n m : RaftNode (Flaky S)), c.nodes[id]? = some n → c.nodes[j]? = some m →
      n.role ≠ .follower → n.votes[j]? = some true →
      (hardState m.storage).currentTerm = n.term ∧ (hardState m.storage).votedFor = some id ∨
        n.term < (hardState m.storage).currentTerm := by
  have held : ∃ cast, Elections voters cast shown c := by
    apply run.invariant (fun shown c => ∃ cast, Elections voters cast shown c)
    · exact ⟨_,Elections.start shared storage⟩
    · intro shown c act c' seen ⟨cast,held⟩ saved taken
      exact held.flakyStep taken saved
  obtain ⟨cast,held⟩ := held
  refine ⟨?_,?_⟩
  · intro first second term one two
    obtain ⟨voter,forFirst,forSecond⟩ := (held.led first term one).meet (held.led second term two)
    simpa [forFirst] using forSecond
  · intro id j n m found found' role counted
    obtain ⟨-,voted⟩ := (held.node id n found).counted role j counted
    have voter := held.node j m found'
    rcases Nat.lt_trichotomy n.term m.term with newer | same | older
    · exact .inr newer
    · refine .inl ⟨same.symm,?_⟩
      have current := voter.current
      rw [← same,voted] at current
      exact current.symm
    · have unused := voter.later n.term older
      rw [voted] at unused
      cases unused

end Runs

instance (c : Cluster (Flaky S)) (act : FlakyAct) : Decidable (CandidacySaved c act) := by
  have saved (r : RaftResult Unit) : Decidable (r = .ok ()) :=
    decidable_of_iff (r.isOk = true) (by cases r <;> simp [Except.isOk,Except.toBool])
  unfold CandidacySaved Cluster.BallotsSaved RaftNode.TimesOut RaftNode.BallotSaved
  repeat' split
  all_goals infer_instance

abbrev flakyTrio : Cluster (Flaky MemStorage) := Cluster.start [1,2,3] trio (fun _ => ⟨{},[]⟩)

/-- Node two cannot save its vote for node one, which then wins with node three's. -/
def refusedRun : List FlakyAct :=
  [.act (.campaign 1),.act (.collect 1),.plan 2 [false,true],.act (.deliver 0),.act (.collect 2),.act (.deliver 1),
    .act (.collect 3),.act (.deliver 2)]

theorem election_safety_refused_vote : ∃ shown c n m,
    Library.Run Cluster.flakyStep CandidacySaved flakyTrio shown c ∧ .leads 1 1 ∈ shown ∧
    (∀ other, .leads other 1 ∈ shown → other = 1) ∧ c.nodes[(1 : NodeId)]? = some n ∧ c.nodes[(3 : NodeId)]? = some m ∧
    n.votes[(3 : NodeId)]? = some true ∧ ((hardState m.storage).currentTerm = n.term ∧
      (hardState m.storage).votedFor = some 1 ∨ n.term < (hardState m.storage).currentTerm) := by
  obtain ⟨c,shown,run,leads,n,found,m,found',role,counted⟩ := @Library.Run.exists_of_admitted _ _ _ Cluster.flakyStep
    CandidacySaved _ refusedRun flakyTrio (fun c shown => Seen.leads 1 1 ∈ shown ∧ ∃ n ∈ c.nodes[(1 : NodeId)]?,
      ∃ m ∈ c.nodes[(3 : NodeId)]?, n.role ≠ .follower ∧ n.votes[(3 : NodeId)]? = some true) (by decide +kernel)
  obtain ⟨single,saved⟩ := election_safety_failing_saves trio_shared _ run
  exact ⟨shown,c,n,m,run,leads,fun other leads' => single other 1 1 leads' leads,found,found',counted,
    saved 1 3 n m found found' role counted⟩

/-- Node one votes for node two, which leads term one, then stands in the same term without being able to save
it. -/
def unsavedRun : List FlakyAct :=
  [.act (.campaign 2),.act (.collect 2),.act (.deliver 0),.act (.collect 1),.act (.deliver 2),
    .plan 1 [true],.act (.campaign 1),.act (.collect 1),.act (.deliver 4),.act (.collect 3),.act (.deliver 5)]

theorem election_unsafe_unsaved_candidacy : ∃ shown c n,
    Library.Run Cluster.flakyStep (fun _ _ => True) flakyTrio shown c ∧
    .leads 2 1 ∈ shown ∧ .leads 1 1 ∈ shown ∧ c.nodes[(1 : NodeId)]? = some n ∧
    n.votes[(1 : NodeId)]? = some true ∧ n.term = 1 ∧ (hardState n.storage).votedFor = some 2 := by
  simp only [exists_and_left]
  exact Library.Run.exists_shown unsavedRun (by decide +kernel)

end AuraDb.Raft
