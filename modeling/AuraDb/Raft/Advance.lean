import AuraDb.Raft.Safety

/-! The commit index of a node never goes back, and a call leaves what was handed out as committed alone until
the next request for it. -/
namespace AuraDb.Raft
open Std RaftStorage LawfulRaftStorage Library.Consensus
variable {S : Type} {n : RaftNode S}

namespace RaftNode

structure Advances (n n' : RaftNode S) : Prop where
  commit : n.commitIndex ≤ n'.commitIndex
  applied : n'.lastApplied = n.lastApplied

variable [RaftStorage S]

/-- What every single change that a call makes to a node keeps. -/
structure Calls (P : RaftNode S → Prop) : Prop where
  free {n n' : RaftNode S} (holds : P n) (storage : n'.storage = n.storage)
    (commit : n'.commitIndex = n.commitIndex) (applied : n'.lastApplied = n.lastApplied) : P n'
  append {n : RaftNode S} (entries : List LogEntry) (holds : P n) : P (n.append entries).1
  commit {n : RaftNode S} {index : Nat} (further : n.commitIndex ≤ index) (holds : P n) :
    P (persistCommitIndex { n with commitIndex := index }).1
  vote {n : RaftNode S} {candidate : NodeId} (holds : P n)
    (unbound : (hardState n.storage).votedFor = none ∨ (hardState n.storage).votedFor = some candidate) :
    P (n.saveHardState { hardState n.storage with votedFor := some candidate }).1

def enter (n : RaftNode S) (term : Nat) : RaftNode S × RaftResult Unit :=
  n.saveHardState { hardState n.storage with currentTerm := term, votedFor := none }

theorem commitIndex_becomeFollower (n : RaftNode S) (term : Nat) (leader : Option NodeId) :
    (n.becomeFollower term leader).1.commitIndex = n.commitIndex := by
  unfold becomeFollower
  dsimp only
  split <;> split <;> rfl

/-- The storage after hard states were saved, and nothing else. -/
def SavedFrom (s s' : S) : Prop :=
  ∀ Q : S → Prop, (∀ s hs, Q s → Q (RaftStorage.saveHardState s hs).1) → Q s → Q s'

theorem saved_becomeFollower (n : RaftNode S) (term : Nat) (leader : Option NodeId) :
    SavedFrom n.storage (n.becomeFollower term leader).1.storage := by
  intro Q saved holds
  have first : Q (if term > (hardState n.storage).currentTerm then n.enter term else (n,.ok ())).1.storage := by
    split
    · exact saved _ _ holds
    · exact holds
  unfold becomeFollower
  dsimp only
  split <;> exact first

namespace Calls
variable {P : RaftNode S → Prop} (calls : Calls P)
include calls

theorem replicates : Replicates P where
  track _ _ holds := calls.free holds rfl rfl rfl
  offer _ holds := calls.free holds rfl rfl rfl
  append := calls.append
  commit := calls.commit

theorem becomeLeader (holds : P n) : P n.becomeLeader.1 := by
  rw [becomeLeader_fst]
  refine calls.replicates.appendOwn ?_ _
  exact calls.free holds rfl rfl rfl

theorem campaign (stands : P n.stand) : P n.campaign := by
  unfold RaftNode.campaign
  dsimp only
  split
  · exact calls.becomeLeader stands
  · exact List.foldlRecOn _ _ stands (fun _ kept _ _ => calls.free kept rfl rfl rfl)

variable (holds : P n)
include holds

theorem becomeFollower {term : Nat} (entered : n.term < term → P (n.enter term).1) (leader : Option NodeId) :
    P (n.becomeFollower term leader).1 := by
  have first : P (if term > (hardState n.storage).currentTerm then n.enter term else (n,.ok ())).1 := by
    split
    · exact entered ‹_›
    · exact holds
  unfold RaftNode.becomeFollower
  dsimp only
  split
  · exact first
  · exact calls.free first rfl rfl rfl

theorem tick (stands : n.role ≠ .leader → n.electionElapsed + 1 ≥ n.randomizedElectionTimeout → P n.stand) : P n.tick := by
  unfold RaftNode.tick
  split
  · dsimp only
    split
    · exact calls.replicates.broadcastAppend (calls.free holds rfl rfl rfl)
    · exact calls.free holds rfl rfl rfl
  all_goals
    rename_i role
    dsimp only
    split
    · exact calls.campaign (stands (by simp [role]) ‹_›)
    · exact calls.free holds rfl rfl rfl

theorem handleRequestVote (sender : NodeId) (term lastLogIndex lastLogTerm : Nat) :
    P (n.handleRequestVote sender term lastLogIndex lastLogTerm).1 := by
  unfold RaftNode.handleRequestVote
  dsimp only
  split
  · rename_i grants
    have voted := calls.vote holds grants.2.1
    split
    all_goals
      rename_i done
      rw [done] at voted
    · exact voted
    · exact calls.free voted rfl rfl rfl
  · exact calls.free holds rfl rfl rfl

theorem handleVoteResp (sender : NodeId) (term : Nat) (granted : Bool) :
    P (n.handleVoteResp sender term granted).1 := by
  unfold RaftNode.handleVoteResp
  split
  · exact holds
  dsimp only
  split
  · refine calls.becomeLeader ?_
    exact calls.free holds rfl rfl rfl
  · exact calls.free holds rfl rfl rfl

section
variable {sender : NodeId}

theorem handleAppendEntries {term prevLogIndex prevLogTerm : Nat} {entries : List LogEntry} {leaderCommit : Nat}
    (entered : n.term < term → P (n.enter term).1) :
    P (n.handleAppendEntries sender term prevLogIndex prevLogTerm entries leaderCommit).1 ∨
    ∃ m, P m ∧ m.commitIndex = n.commitIndex ∧
      SavedFrom n.storage m.storage ∧
      (n.handleAppendEntries sender term prevLogIndex prevLogTerm entries leaderCommit).1 =
        (m.acceptEntries sender prevLogIndex prevLogTerm entries leaderCommit).1 := by
  have follows := calls.becomeFollower holds entered (some sender)
  have same := commitIndex_becomeFollower n term (some sender)
  unfold RaftNode.handleAppendEntries
  split
  · exact .inl (calls.free holds rfl rfl rfl)
  split
  all_goals
    rename_i done
    rw [done] at follows same
  · exact .inl follows
  · have saved := saved_becomeFollower n term (some sender)
    rw [done] at saved
    refine .inr ⟨_,?_,?_,?_,rfl⟩
    · exact calls.free follows rfl rfl rfl
    · exact same
    · exact saved

/-- A message with a newer term is one of that term after the term has been entered. -/
theorem step {message : Message}
    (entered : ∀ m, P m → m.term < messageTerm message → P (m.enter (messageTerm message)).1) :
    P (n.step sender message).1 ∨ ∃ m term prevLogIndex prevLogTerm entries leaderCommit, P m ∧
      m.commitIndex = n.commitIndex ∧ SavedFrom n.storage m.storage ∧
      message = .appendEntries term prevLogIndex prevLogTerm entries leaderCommit ∧
      (n.step sender message).1 = (m.acceptEntries sender prevLogIndex prevLogTerm entries leaderCommit).1 := by
  have first : P (if messageTerm message > n.term then n.becomeFollower (messageTerm message) none else (n,.ok ())).1 ∧
      (if messageTerm message > n.term then n.becomeFollower (messageTerm message) none
        else (n,.ok ())).1.commitIndex = n.commitIndex ∧
      SavedFrom n.storage (if messageTerm message > n.term then n.becomeFollower (messageTerm message) none
        else (n,.ok ())).1.storage := by
    split
    · exact ⟨calls.becomeFollower holds (entered n holds) none,commitIndex_becomeFollower ..,saved_becomeFollower n _ _⟩
    · exact ⟨holds,rfl,fun _ _ held => held⟩
  unfold RaftNode.step
  dsimp only
  split
  · exact .inl first.1
  obtain ⟨holds,same,saved⟩ := first
  cases message with
  | requestVote => exact .inl (calls.handleRequestVote holds ..)
  | requestVoteResp => exact .inl (calls.handleVoteResp holds ..)
  | appendEntriesResp => exact .inl (calls.replicates.handleAppendResp holds ..)
  | appendEntries =>
    refine (calls.handleAppendEntries holds (entered _ holds)).imp id ?_
    rintro ⟨m,follows,still,later,ends⟩
    exact ⟨m,_,_,_,_,_,follows,still.trans same,fun Q kept held => later Q kept (saved Q kept held),rfl,ends⟩

end

end Calls

theorem calls_commit (k : Nat) : Calls (fun m : RaftNode S => k ≤ m.commitIndex) where
  free low _ commit _ := commit ▸ low
  append _ low := low
  commit further low := by
    rw [commitIndex_persistCommitIndex]
    exact low.trans further
  vote low _ := low

theorem lastApplied_persistCommitIndex (n : RaftNode S) : n.persistCommitIndex.1.lastApplied = n.lastApplied := by
  unfold persistCommitIndex
  dsimp only
  split <;> rfl

theorem calls_applied (k : Nat) : Calls (fun m : RaftNode S => m.lastApplied = k) where
  free same _ _ applied := applied.trans same
  append _ same := same
  commit _ same := (lastApplied_persistCommitIndex _).trans same
  vote same _ := same

section
variable (n : RaftNode S)

theorem advances_appendOwn (command : Command) : Advances n (n.appendOwn command).1 where
  commit := (calls_commit n.commitIndex).replicates.appendOwn le_rfl command
  applied := (calls_applied n.lastApplied).replicates.appendOwn rfl command

theorem advances_campaign : Advances n n.campaign where
  commit := (calls_commit n.commitIndex).campaign (Nat.le_refl n.commitIndex)
  applied := (calls_applied n.lastApplied).campaign rfl

theorem advances_tick : Advances n n.tick where
  commit := (calls_commit n.commitIndex).tick le_rfl (fun _ _ => Nat.le_refl n.commitIndex)
  applied := (calls_applied n.lastApplied).tick rfl (fun _ _ => rfl)

/-- Only a leader's entries could move the commit index back. -/
theorem advances_step (sender : NodeId) (message : Message)
    (forward : ∀ term prevLogIndex prevLogTerm entries leaderCommit,
      message = .appendEntries term prevLogIndex prevLogTerm entries leaderCommit →
      n.commitIndex ≤ (n.step sender message).1.commitIndex) : Advances n (n.step sender message).1 where
  commit := by
    rcases (calls_commit n.commitIndex).step le_rfl (fun _ low _ => low) with low | ⟨_,_,_,_,_,_,-,-,-,same,-⟩
    · exact low
    · exact forward _ _ _ _ _ same
  applied := by
    rcases (calls_applied n.lastApplied).step rfl (fun _ same _ => same) with same | ⟨m,_,_,_,_,_,same,-,-,-,ends⟩
    · exact same
    rw [ends]
    exact acceptEntries_rule (P := fun m => m.lastApplied = n.lastApplied) m _ _ _ _ _ same same
      (fun _ => (lastApplied_persistCommitIndex _).trans same) (fun _ _ _ same => same)

end

section Boundary
variable [LawfulRaftStorage S]

theorem base_maybeAdvanceCommit (n : RaftNode S) : base n.maybeAdvanceCommit.1.storage = base n.storage := by
  unfold maybeAdvanceCommit persistCommitIndex
  dsimp only
  split
  · split
    · exact base_save ..
    · rfl
  · rfl

end Boundary

end RaftNode

namespace Tracked
variable [RaftStorage S] [LawfulRaftStorage S] {voters : List NodeId} {cut : Prop} {g : History} {id : NodeId}

theorem base_appendOwn (tracked : Tracked voters cut g id n) (command : Command) :
    LawfulRaftStorage.base (n.appendOwn command).1.storage = LawfulRaftStorage.base n.storage := by
  obtain ⟨s,stored,-,sameBase⟩ := tracked.append_stored command
  refine RaftNode.appendOwn_rule (P := fun m => base m.storage = base n.storage) n command ?_ ?_ ?_
  · simp only [RaftNode.append,lastIndex_eq tracked.holds,tracked.term,stored]
    exact sameBase
  · exact fun m same => (RaftNode.base_maybeAdvanceCommit _).trans same
  · exact fun m same => (congrArg base m.storage_broadcastAppend).trans same

theorem base_campaign (tracked : Tracked voters cut g id n) :
    LawfulRaftStorage.base n.campaign.storage = LawfulRaftStorage.base n.storage := by
  obtain ⟨g',moved,stands⟩ := tracked.stand
  have saved : LawfulRaftStorage.base n.stand.storage = LawfulRaftStorage.base n.storage := base_save ..
  unfold RaftNode.campaign
  dsimp only
  split
  · rename_i alone
    obtain ⟨stood,free,-⟩ := stands.candidate rfl
    have enough := alone.trans n.one_vote_stand
    obtain ⟨g'',-,leads⟩ := stands.elected stood free (stands.majority_of_votes rfl enough)
    rw [RaftNode.becomeLeader_fst]
    exact (leads.base_appendOwn .noop).trans saved
  · rw [RaftNode.storage_sent]
    exact saved

end Tracked

/-- A storage whose term is a word of 64 bits. -/
def Words (S : Type) : Type := S

instance {S : Type} [store : RaftStorage S] : RaftStorage (Words S) :=
  { store with saveHardState := fun s hs =>
      store.saveHardState s { hs with currentTerm := hs.currentTerm % 2 ^ 64 } }

/-- A storage of which saving a hard state leaves the log, appending leaves the entries there, and truncating those
before the index. -/
class SteadyLog (S : Type) [RaftStorage S] : Prop where
  save (s : S) (hs : HardState) : lastIndex (saveHardState s hs).1 = lastIndex s ∧
    termAt (saveHardState s hs).1 = termAt s
  append (s : S) (entries : List LogEntry) : lastIndex s ≤ lastIndex (append s entries).1 ∧
    ∀ j ≤ lastIndex s, termAt (append s entries).1 j = termAt s j
  truncate (s : S) (i : Nat) : min (lastIndex s) (i - 1) ≤ lastIndex (truncateFrom s i).1 ∧
    ∀ j < i, termAt (truncateFrom s i).1 j = termAt s j

instance {S : Type} [RaftStorage S] [steady : SteadyLog S] : SteadyLog (Words S) :=
  ⟨fun s hs => steady.save s { hs with currentTerm := hs.currentTerm % 2 ^ 64 },steady.append,steady.truncate⟩

instance : SteadyLog FileStorage where
  save _ _ := ⟨rfl,rfl⟩
  append s entries := by
    change s.lastIndex ≤ (s.append entries).1.lastIndex ∧ ∀ j ≤ s.lastIndex, (s.append entries).1.termAt j = s.termAt j
    unfold FileStorage.append
    split
    · exact ⟨le_rfl,fun _ _ => rfl⟩
    · refine ⟨by simp [FileStorage.lastIndex],fun j below => ?_⟩
      unfold FileStorage.lastIndex at below
      by_cases early : j ≤ s.baseIndex
      · simp [FileStorage.termAt,FileStorage.slot,early]
      · have inside : j - s.baseIndex - 1 < s.entries.length := by omega
        have longer : j - s.baseIndex - 1 < s.entries.length + entries.length := by omega
        simp [FileStorage.termAt,FileStorage.slot,early,inside,longer]
  truncate s i := by
    change min s.lastIndex (i - 1) ≤ (s.truncateFrom i).1.lastIndex ∧ ∀ j < i, (s.truncateFrom i).1.termAt j = s.termAt j
    unfold FileStorage.truncateFrom
    split
    · exact ⟨Nat.min_le_left _ _,fun _ _ => rfl⟩
    · refine ⟨by simp [FileStorage.lastIndex]; omega,fun j below => ?_⟩
      by_cases early : j ≤ s.baseIndex
      · simp [FileStorage.termAt,FileStorage.slot,early]
      · have kept : j - s.baseIndex - 1 < i - s.baseIndex - 1 := by omega
        by_cases inside : j - s.baseIndex - 1 < s.entries.length <;>
          simp [FileStorage.termAt,FileStorage.slot,early,kept,inside]

/-- Term and commit index have not gone back, and a vote stands for its term. -/
structure HardState.Follows (before after : HardState) : Prop where
  term : before.currentTerm ≤ after.currentTerm
  commit : before.commitIndex ≤ after.commitIndex
  vote : after.currentTerm = before.currentTerm → ∀ c, before.votedFor = some c → after.votedFor = some c

theorem HardState.Follows.trans {a b c : HardState} (first : a.Follows b) (second : b.Follows c) : a.Follows c where
  term := first.term.trans second.term
  commit := first.commit.trans second.commit
  vote same candidate voted := by
    have one := first.term
    have two := second.term
    exact second.vote (by omega) candidate (first.vote (by omega) candidate voted)

inductive NodeInput where
  | tick
  | propose (command : Command)
  | receive (sender : NodeId) (message : Message)

namespace RaftNode
variable [RaftStorage S]

def input (n : RaftNode S) : NodeInput → Option (RaftNode S × List Empty)
  | .tick => some (n.tick,[])
  | .propose command => some ((n.propose command).1,[])
  | .receive sender message => some ((n.step sender message).1,[])

/-- The entries of a leader that would move the commit index on do not contradict the log up to it. -/
def Respects (n : RaftNode S) (entries : List LogEntry) (leaderCommit : Nat) : Prop :=
  n.commitIndex < leaderCommit → n.commitIndex ≤ lastIndex n.storage ∧
    ∀ e ∈ entries, e.index ≤ n.commitIndex → ∀ t, termAt n.storage e.index = some t → t = e.term

/-- No election starts at the last term there is, a message has a term of 64 bits, and a leader's entries respect
what is committed. -/
def Orderly (n : RaftNode S) : NodeInput → Prop
  | .tick => n.TimesOut → n.term + 1 < 2 ^ 64
  | .propose _ => True
  | .receive _ message => messageTerm message < 2 ^ 64 ∧
    ∀ term prevLogIndex prevLogTerm entries leaderCommit,
      message = .appendEntries term prevLogIndex prevLogTerm entries leaderCommit → n.Respects entries leaderCommit

/-- Entries that agree with the log up to an index leave it there. -/
theorem storeEntries_reaches [SteadyLog S] {k : Nat} (entries : List LogEntry) (s : S) (long : k ≤ lastIndex s)
    (agree : ∀ e ∈ entries, e.index ≤ k → ∀ t, termAt s e.index = some t → t = e.term) :
    k ≤ lastIndex (storeEntries s entries).1 := by
  induction entries generalizing s with
  | nil => exact long
  | cons e rest ih =>
    obtain ⟨here,others⟩ := List.forall_mem_cons.mp agree
    have stored : k ≤ lastIndex (storeEntry s e).1 ∧ ∀ j ≤ k, termAt (storeEntry s e).1 j = termAt s j := by
      have appended (s' : S) (long' : k ≤ lastIndex s') (same : ∀ j ≤ k, termAt s' j = termAt s j) :
          k ≤ lastIndex (RaftStorage.append s' [e]).1 ∧ ∀ j ≤ k, termAt (RaftStorage.append s' [e]).1 j = termAt s j := by
        obtain ⟨longer,kept⟩ := SteadyLog.append s' [e]
        exact ⟨long'.trans longer,fun j below => (kept j (below.trans long')).trans (same j below)⟩
      unfold storeEntry
      split
      · rename_i existing found
        split
        · exact ⟨long,fun _ _ => rfl⟩
        · rename_i differs
          -- the entry that is replaced lies above
          have above : k < e.index := Nat.lt_of_not_le (fun below => differs (here below existing found))
          obtain ⟨reach,kept⟩ := SteadyLog.truncate s e.index
          have cut : k ≤ lastIndex (truncateFrom s e.index).1 := by omega
          have same (j : Nat) (below : j ≤ k) := kept j (below.trans_lt above)
          split
          · rename_i done
            rw [done] at cut same
            exact ⟨cut,same⟩
          · rename_i done
            rw [done] at cut same
            exact appended _ cut same
      · exact appended s long (fun _ _ => rfl)
    unfold storeEntries
    split
    · rename_i failed
      rw [failed] at stored
      exact stored.1
    · rename_i done
      rw [done] at stored
      exact ih _ stored.1 (fun e' inside below t found => others e' inside below t (stored.2 _ below ▸ found))

structure Forward (start : HardState) (n : RaftNode (Words S)) : Prop where
  fits : n.term < 2 ^ 64
  saved : (hardState n.storage).commitIndex ≤ n.commitIndex
  follows : start.Follows (hardState n.storage)

namespace Forward
variable {start : HardState} {n m : RaftNode (Words S)}

theorem of_same (forward : Forward start n) (hard : hardState m.storage = hardState n.storage)
    (further : n.commitIndex ≤ m.commitIndex) : Forward start m where
  fits := by rw [RaftNode.term,hard]; exact forward.fits
  saved := by rw [hard]; exact forward.saved.trans further
  follows := by rw [hard]; exact forward.follows

variable [FallibleHardState S]

theorem save (forward : Forward start n) (hs : HardState) (fits : hs.currentTerm < 2 ^ 64)
    (follows : (hardState n.storage).Follows hs) (stored : m.storage = (RaftStorage.saveHardState n.storage hs).1)
    (bound : hs.commitIndex ≤ m.commitIndex) (further : n.commitIndex ≤ m.commitIndex) : Forward start m := by
  rcases @FallibleHardState.save_cases S _ _ n.storage { hs with currentTerm := hs.currentTerm % 2 ^ 64 }
    with ⟨-,saved⟩ | ⟨-,same⟩
  · have hard : hardState m.storage = hs := by
      rw [stored]
      refine saved.trans ?_
      rw [Nat.mod_eq_of_lt fits]
    exact ⟨by rw [RaftNode.term,hard]; exact fits,by rw [hard]; exact bound,
      by rw [hard]; exact forward.follows.trans follows⟩
  · exact forward.of_same (stored ▸ same) further

theorem calls : Calls (Forward (S := S) start) where
  free forward storage commit _ := forward.of_same (by rw [storage]) (Nat.le_of_eq commit.symm)
  append {n} entries forward := forward.of_same (@FallibleHardState.hardState_append S _ _ n.storage entries) le_rfl
  commit {n index} further forward := by
    unfold persistCommitIndex
    dsimp only
    split
    · exact forward.save { hardState n.storage with commitIndex := index } forward.fits
        ⟨le_rfl,forward.saved.trans further,fun _ _ voted => voted⟩ rfl le_rfl further
    · exact forward.of_same rfl further
  vote {n candidate} forward unbound := by
    refine forward.save { hardState n.storage with votedFor := some candidate } forward.fits
      ⟨le_rfl,le_rfl,fun _ c voted => ?_⟩ rfl forward.saved le_rfl
    rcases unbound with free | again
    · cases free.symm.trans voted
    · exact again.symm.trans voted

variable [SteadyLog S]

theorem acceptEntries (forward : Forward start n) (sender : NodeId) (prevLogIndex prevLogTerm : Nat)
    (entries : List LogEntry) (leaderCommit : Nat) (respects : n.Respects entries leaderCommit) :
    Forward start (n.acceptEntries sender prevLogIndex prevLogTerm entries leaderCommit).1 := by
  have same : hardState (storeEntries n.storage entries).1 = hardState n.storage := by
    refine storeEntries_rule (S := Words S) (P := fun s => hardState s = hardState n.storage) ?_ ?_ rfl entries
    · exact fun s entries => (@FallibleHardState.hardState_append S _ _ s entries).trans
    · exact fun s index => (@FallibleHardState.hardState_truncate S _ _ s index).trans
  have stored : Forward start { n with storage := (storeEntries n.storage entries).1 } := forward.of_same same le_rfl
  refine acceptEntries_rule n _ _ _ _ _ forward stored ?_ (fun m _ _ forward => calls.free forward rfl rfl rfl)
  intro further
  obtain ⟨long,agree⟩ := respects further
  refine calls.commit ?_ stored
  exact Nat.le_min.mpr ⟨Nat.le_of_lt further,storeEntries_reaches entries n.storage long agree⟩

theorem input (forward : Forward start n) {act : NodeInput} (orderly : n.Orderly act) {shown : List Empty}
    (taken : n.input act = some (m,shown)) : Forward start m := by
  cases act with
  | tick =>
    cases taken
    refine calls.tick forward (fun role expired => ?_)
    exact forward.save n.ballot (orderly ⟨role,expired⟩)
      ⟨Nat.le_succ _,le_rfl,fun same => absurd same (Nat.succ_ne_self _)⟩ rfl forward.saved le_rfl
  | propose command =>
    cases taken
    unfold propose
    split
    · exact forward
    · exact calls.replicates.appendOwn forward command
  | receive sender message =>
    cases taken
    obtain ⟨fits,respects⟩ := orderly
    have entered (m : RaftNode (Words S)) (forward : Forward start m) (newer : m.term < messageTerm message) :
        Forward start (m.enter (messageTerm message)).1 :=
      forward.save { hardState m.storage with currentTerm := messageTerm message, votedFor := none } fits
        ⟨Nat.le_of_lt newer,le_rfl,fun same => absurd same (Nat.ne_of_gt newer)⟩ rfl forward.saved le_rfl
    rcases calls.step forward entered with done | ⟨m,_,_,_,entries,leaderCommit,forward,still,saved,same,ends⟩
    · exact done
    rw [ends]
    refine forward.acceptEntries _ _ _ _ _ ?_
    have kept := saved (fun s => lastIndex s = lastIndex n.storage ∧ termAt s = termAt n.storage)
      (fun s hs same => ⟨(SteadyLog.save s hs).1.trans same.1,(SteadyLog.save s hs).2.trans same.2⟩) ⟨rfl,rfl⟩
    unfold Respects
    rw [still,kept.1,kept.2]
    exact respects _ _ _ _ _ same

end Forward

end RaftNode

/-- Where no election starts in the last term of 64 bits and no leader's entries contradict what is committed: the
stored term and commit index never go back, and no vote is changed within its term. -/
theorem hard_state_follows {S : Type} [RaftStorage S] [FallibleHardState S] [SteadyLog S] (config : RaftConfig)
    (storage : Words S) (fits : (hardState storage).currentTerm < 2 ^ 64) {shown later : List Empty} {n n' : RaftNode (Words S)}
    (run : Library.Run RaftNode.input RaftNode.Orderly (RaftNode.new config storage) shown n)
    (more : Library.Run RaftNode.input RaftNode.Orderly n later n') :
    (hardState n.storage).Follows (hardState n'.storage) := by
  have reached : RaftNode.Forward (hardState storage) n := by
    apply run.invariant (fun _ n => RaftNode.Forward (hardState storage) n)
    · exact ⟨fits,le_rfl,le_rfl,le_rfl,fun _ _ voted => voted⟩
    · exact fun _ _ _ _ _ forward orderly taken => forward.input orderly taken
  have last : RaftNode.Forward (hardState n.storage) n' := by
    apply more.invariant (fun _ n' => RaftNode.Forward (hardState n.storage) n')
    · exact ⟨reached.fits,reached.saved,le_rfl,le_rfl,fun _ _ voted => voted⟩
    · exact fun _ _ _ _ _ forward orderly taken => forward.input orderly taken
  exact last.follows

def hasty : RaftNode (Words FileStorage) := RaftNode.new ⟨1,[2,3],1,1,1⟩ ({} : FileStorage)

instance (n : RaftNode (Words FileStorage)) (entries : List LogEntry) (leaderCommit : Nat) :
    Decidable (n.Respects entries leaderCommit) :=
  decidable_of_iff (n.commitIndex < leaderCommit → n.commitIndex ≤ lastIndex n.storage ∧
    ∀ e ∈ entries, e.index ≤ n.commitIndex → ∀ t ∈ termAt n.storage e.index, t = e.term) Iff.rfl

theorem hard_state_follows_replaced : ∃ n n', Library.Run RaftNode.input RaftNode.Orderly hasty [] n ∧
    Library.Run RaftNode.input RaftNode.Orderly n [] n' ∧ (hardState n.storage).commitIndex = 1 ∧
    termAt n.storage 2 = some 1 ∧ termAt n'.storage 2 = some 2 ∧ (hardState n.storage).Follows (hardState n'.storage) := by
  let n := (hasty.step 2 (.appendEntries 1 0 0 [⟨1,1,.noop⟩,⟨1,2,.noop⟩] 1)).1
  have run : Library.Run RaftNode.input RaftNode.Orderly hasty ([] ++ []) n := by
    refine .next (.start hasty) (.receive 2 (.appendEntries 1 0 0 [⟨1,1,.noop⟩,⟨1,2,.noop⟩] 1))
      ⟨by decide,fun _ _ _ _ _ same => ?_⟩ rfl
    cases same
    decide +kernel
  have more : Library.Run RaftNode.input RaftNode.Orderly n ([] ++ [])
      (n.step 3 (.appendEntries 2 1 1 [⟨2,2,.noop⟩] 2)).1 := by
    refine .next (.start n) (.receive 3 (.appendEntries 2 1 1 [⟨2,2,.noop⟩] 2))
      ⟨by decide,fun _ _ _ _ _ same => ?_⟩ rfl
    cases same
    decide +kernel
  exact ⟨n,_,run,more,by decide +kernel,by decide +kernel,by decide +kernel,
    hard_state_follows _ _ (by decide) run more⟩

/-- A vote request of the last term is followed by an election in term zero; entries of a newer leader replace
two committed ones, and its commit index is cut to the one that is left. -/
theorem hard_state_goes_back :
    (hasty.step 2 (.requestVote (2 ^ 64 - 1) 0 0)).1.tick.term < (hasty.step 2 (.requestVote (2 ^ 64 - 1) 0 0)).1.term ∧
    ∃ n, n = (hasty.step 2 (.appendEntries 1 0 0 [⟨1,1,.noop⟩,⟨1,2,.noop⟩] 2)).1 ∧
      (hardState (n.step 3 (.appendEntries 2 0 0 [⟨2,1,.noop⟩] 3)).1.storage).commitIndex <
        (hardState n.storage).commitIndex := by
  exact ⟨by decide +kernel,_,rfl,by decide +kernel⟩

end AuraDb.Raft
