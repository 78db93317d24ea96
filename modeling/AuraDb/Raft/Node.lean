import AuraDb.Library.Run
import AuraDb.Library.TreeMap
import AuraDb.Raft.Log
import Mathlib.Data.List.Perm.Basic

/-! The Raft node: a state machine driven by ticks, proposals and messages over the log storage it owns. A failed
operation leaves the node it returns behind. Nodes form a cluster over a network that delivers a packet at any
time, in any order, any number of times or never; a node may stop between two calls and start again from its
storage. -/
namespace AuraDb.Raft
open Std RaftStorage

inductive NodeRole where
  | follower
  | candidate
  | leader
  deriving DecidableEq, Repr

structure RaftConfig where
  id : NodeId
  peers : List NodeId
  electionTimeoutMin : Nat
  electionTimeoutMax : Nat
  heartbeatInterval : Nat
  deriving DecidableEq, Repr

namespace RaftConfig

def singleNode (id : NodeId) : RaftConfig := ⟨id,[],10,20,3⟩

def voters (config : RaftConfig) : Nat := config.peers.length + 1

def majority (config : RaftConfig) : Nat := config.voters / 2 + 1

end RaftConfig

inductive Message where
  | requestVote (term : Nat) (lastLogIndex : Nat) (lastLogTerm : Nat)
  | requestVoteResp (term : Nat) (granted : Bool)
  | appendEntries (term : Nat) (prevLogIndex : Nat) (prevLogTerm : Nat)
      (entries : List LogEntry) (leaderCommit : Nat)
  | appendEntriesResp (term : Nat) (success : Bool) (matchIndex : Nat)
  deriving DecidableEq, Repr

def messageTerm : Message → Nat
  | .requestVote term .. => term
  | .requestVoteResp term .. => term
  | .appendEntries term .. => term
  | .appendEntriesResp term .. => term

structure Envelope where
  recipient : NodeId
  message : Message
  deriving DecidableEq, Repr

structure RaftNode (S : Type) where
  config : RaftConfig
  storage : S
  role : NodeRole
  leaderId : Option NodeId
  commitIndex : Nat
  lastApplied : Nat
  electionElapsed : Nat
  heartbeatElapsed : Nat
  randomizedElectionTimeout : Nat
  nextIndex : ExtTreeMap NodeId Nat compare
  matchIndex : ExtTreeMap NodeId Nat compare
  votes : ExtTreeMap NodeId Bool compare
  rngState : UInt64
  outbox : List Envelope

namespace RaftNode
variable {S : Type} [RaftStorage S]

def nextRand (state : UInt64) : UInt64 × UInt64 :=
  let state := state + 0x9e3779b97f4a7c15
  let z := (state ^^^ (state >>> 30)) * 0xbf58476d1ce4e5b9
  let z := (z ^^^ (z >>> 27)) * 0x94d049bb133111eb
  (state,z ^^^ (z >>> 31))

def resetElectionTimeout (n : RaftNode S) : RaftNode S :=
  let span := max (n.config.electionTimeoutMax - n.config.electionTimeoutMin + 1) 1
  let (state,drawn) := nextRand n.rngState
  { n with
    electionElapsed := 0
    rngState := state
    randomizedElectionTimeout := n.config.electionTimeoutMin + drawn.toNat % span }

def new (config : RaftConfig) (storage : S) : RaftNode S :=
  resetElectionTimeout
    { config, storage
      role := .follower
      leaderId := none
      commitIndex := (hardState storage).commitIndex
      lastApplied := (hardState storage).commitIndex
      electionElapsed := 0
      heartbeatElapsed := 0
      randomizedElectionTimeout := 0
      nextIndex := ∅
      matchIndex := ∅
      votes := ∅
      rngState := UInt64.ofNat config.id ^^^ 0x9e3779b97f4a7c15
      outbox := [] }

def term (n : RaftNode S) : Nat := (hardState n.storage).currentTerm

def isLeader (n : RaftNode S) : Bool := n.role == .leader

def send (n : RaftNode S) (recipient : NodeId) (message : Message) : RaftNode S :=
  { n with outbox := n.outbox ++ [⟨recipient,message⟩] }

def saveHardState (n : RaftNode S) (hs : HardState) : RaftNode S × RaftResult Unit :=
  let (storage,result) := RaftStorage.saveHardState n.storage hs
  ({ n with storage },result)

def append (n : RaftNode S) (entries : List LogEntry) : RaftNode S × RaftResult Unit :=
  let (storage,result) := RaftStorage.append n.storage entries
  ({ n with storage },result)

def persistCommitIndex (n : RaftNode S) : RaftNode S × RaftResult Unit :=
  let hs := hardState n.storage
  if hs.commitIndex ≠ n.commitIndex then n.saveHardState { hs with commitIndex := n.commitIndex }
  else (n,.ok ())

/-- The highest index a majority has and whose entry is of the current term. -/
def replicatedIndex (n : RaftNode S) : Nat :=
  (List.range' (n.commitIndex + 1) (lastIndex n.storage - n.commitIndex)).foldl
    (fun newCommit i =>
      if n.config.majority ≤ n.matchIndex.toList.countP (fun p => p.2 ≥ i) ∧
        termAt n.storage i = some n.term then i else newCommit) n.commitIndex

def maybeAdvanceCommit (n : RaftNode S) : RaftNode S × RaftResult Unit :=
  let newCommit := n.replicatedIndex
  if newCommit > n.commitIndex then persistCommitIndex { n with commitIndex := newCommit }
  else (n,.ok ())

def sendAppendTo (n : RaftNode S) (peer : NodeId) : RaftNode S :=
  let next := n.nextIndex[peer]?.getD (lastIndex n.storage + 1)
  let prevLogIndex := next - 1
  n.send peer (.appendEntries n.term prevLogIndex ((termAt n.storage prevLogIndex).getD 0)
    (entriesFrom n.storage next) n.commitIndex)

def broadcastAppend (n : RaftNode S) : RaftNode S := n.config.peers.foldl sendAppendTo n

/-- A leader appends one entry, counts itself and offers the log to its peers. -/
def appendOwn (n : RaftNode S) (command : Command) : RaftNode S × RaftResult Nat :=
  let index := lastIndex n.storage + 1
  match n.append [⟨n.term,index,command⟩] with
  | (n,.error e) => (n,.error e)
  | (n,.ok ()) =>
    match maybeAdvanceCommit { n with matchIndex := n.matchIndex.insert n.config.id index } with
    | (n,.error e) => (n,.error e)
    | (n,.ok ()) => (n.broadcastAppend,.ok index)

def trackPeers (peers : List NodeId) (index : Nat) : ExtTreeMap NodeId Nat compare :=
  peers.foldl (fun tracked peer => tracked.insert peer index) ∅

/-- What `become_leader` sets before it appends its no-op. -/
def lead (n : RaftNode S) : RaftNode S :=
  { n with
    role := .leader
    leaderId := some n.config.id
    heartbeatElapsed := 0
    nextIndex := trackPeers n.config.peers (lastIndex n.storage + 1)
    matchIndex := (trackPeers n.config.peers 0).insert n.config.id (lastIndex n.storage) }

def becomeLeader (n : RaftNode S) : RaftNode S × RaftResult Unit :=
  match n.lead.appendOwn .noop with
  | (n,.error e) => (n,.error e)
  | (n,.ok _) => (n,.ok ())

def becomeFollower (n : RaftNode S) (term : Nat) (leader : Option NodeId) : RaftNode S × RaftResult Unit :=
  let hs := hardState n.storage
  let (n,saved) :=
    if term > hs.currentTerm then n.saveHardState { hs with currentTerm := term, votedFor := none }
    else (n,.ok ())
  match saved with
  | .error e => (n,.error e)
  | .ok () => ({ n with role := .follower, leaderId := leader.or n.leaderId, votes := ∅ },.ok ())

/-- The node enters the next term and votes for itself. The result of saving is not looked at. -/
def stand (n : RaftNode S) : RaftNode S :=
  let hs := hardState n.storage
  let (n,_) := n.saveHardState
    { hs with currentTerm := hs.currentTerm + 1, votedFor := some n.config.id }
  resetElectionTimeout { n with
    role := .candidate
    leaderId := none
    votes := (∅ : ExtTreeMap NodeId Bool compare).insert n.config.id true }

def campaign (n : RaftNode S) : RaftNode S :=
  let n := n.stand
  if n.config.majority ≤ 1 then n.becomeLeader.1
  else n.config.peers.foldl (fun m peer =>
    m.send peer (.requestVote n.term (lastIndex n.storage) (lastTerm n.storage))) n

def tick (n : RaftNode S) : RaftNode S :=
  match n.role with
  | .leader =>
    let n := { n with heartbeatElapsed := n.heartbeatElapsed + 1 }
    if n.heartbeatElapsed ≥ n.config.heartbeatInterval then
      broadcastAppend { n with heartbeatElapsed := 0 }
    else n
  | .follower | .candidate =>
    let n := { n with electionElapsed := n.electionElapsed + 1 }
    if n.electionElapsed ≥ n.randomizedElectionTimeout then n.campaign else n

def takeMessages (n : RaftNode S) : RaftNode S × List Envelope := ({ n with outbox := [] },n.outbox)

def takeCommitted (n : RaftNode S) : RaftNode S × List LogEntry :=
  ({ n with lastApplied := n.commitIndex },
    (List.range' (n.lastApplied + 1) (n.commitIndex - n.lastApplied)).filterMap (entryAt n.storage))

/-- After a snapshot: what it covers is committed and applied. -/
def adoptSnapshot (n : RaftNode S) (lastIncludedIndex : Nat) : RaftNode S :=
  { n with
    commitIndex := max n.commitIndex lastIncludedIndex
    lastApplied := max n.lastApplied lastIncludedIndex }

def propose (n : RaftNode S) (command : Command) : RaftNode S × RaftResult Nat :=
  if n.role ≠ .leader then (n,.error (.notLeader n.leaderId)) else n.appendOwn command

def handleRequestVote (n : RaftNode S) (sender : NodeId) (term : Nat) (lastLogIndex : Nat)
    (lastLogTerm : Nat) : RaftNode S × RaftResult Unit :=
  let hs := hardState n.storage
  let canVote := hs.votedFor = none ∨ hs.votedFor = some sender
  let logOk := lastTerm n.storage < lastLogTerm ∨
    lastLogTerm = lastTerm n.storage ∧ lastIndex n.storage ≤ lastLogIndex
  if ¬ term < hs.currentTerm ∧ canVote ∧ logOk then
    match n.saveHardState { hs with votedFor := some sender } with
    | (n,.error e) => (n,.error e)
    | (n,.ok ()) =>
      (send { n with electionElapsed := 0 } sender (.requestVoteResp n.term true),.ok ())
  else (n.send sender (.requestVoteResp n.term false),.ok ())

def handleVoteResp (n : RaftNode S) (sender : NodeId) (term : Nat) (granted : Bool) : RaftNode S × RaftResult Unit :=
  if n.role ≠ .candidate ∨ term ≠ n.term then (n,.ok ())
  else
    let n := { n with votes := n.votes.insert sender granted }
    if n.config.majority ≤ n.votes.toList.countP (fun p => p.2) then n.becomeLeader else (n,.ok ())

def storeEntry (s : S) (entry : LogEntry) : S × RaftResult Unit :=
  match termAt s entry.index with
  | some existing =>
    if existing = entry.term then (s,.ok ())
    else match truncateFrom s entry.index with
      | (s,.error e) => (s,.error e)
      | (s,.ok ()) => RaftStorage.append s [entry]
  | none => RaftStorage.append s [entry]

def storeEntries (s : S) : List LogEntry → S × RaftResult Unit
  | [] => (s,.ok ())
  | entry::rest => match storeEntry s entry with
    | (s,.error e) => (s,.error e)
    | (s,.ok ()) => storeEntries s rest

/-- What a follower does with a leader's entries once its own term is the leader's. -/
def acceptEntries (n : RaftNode S) (sender : NodeId) (prevLogIndex : Nat) (prevLogTerm : Nat)
    (entries : List LogEntry) (leaderCommit : Nat) : RaftNode S × RaftResult Unit :=
  if termAt n.storage prevLogIndex ≠ some prevLogTerm then
    (n.send sender (.appendEntriesResp n.term false 0),.ok ())
  else match storeEntries n.storage entries with
    | (storage,.error e) => ({ n with storage },.error e)
    | (storage,.ok ()) =>
      let n := { n with storage }
      let (n,saved) :=
        if leaderCommit > n.commitIndex then
          persistCommitIndex { n with commitIndex := min leaderCommit (lastIndex n.storage) }
        else (n,.ok ())
      match saved with
      | .error e => (n,.error e)
      | .ok () =>
        let matchIndex := (entries.getLast?.map LogEntry.index).getD prevLogIndex
        (n.send sender (.appendEntriesResp n.term true matchIndex),.ok ())

def handleAppendEntries (n : RaftNode S) (sender : NodeId) (term : Nat) (prevLogIndex : Nat)
    (prevLogTerm : Nat) (entries : List LogEntry) (leaderCommit : Nat) :
    RaftNode S × RaftResult Unit :=
  if term < n.term then (n.send sender (.appendEntriesResp n.term false 0),.ok ())
  else match n.becomeFollower term (some sender) with
    | (n,.error e) => (n,.error e)
    | (n,.ok ()) => acceptEntries { n with electionElapsed := 0 } sender prevLogIndex prevLogTerm
        entries leaderCommit

def handleAppendResp (n : RaftNode S) (sender : NodeId) (term : Nat) (success : Bool)
    (matchIndex : Nat) : RaftNode S × RaftResult Unit :=
  if n.role ≠ .leader ∨ term ≠ n.term then (n,.ok ())
  else if success then
    maybeAdvanceCommit { n with
      matchIndex := n.matchIndex.insert sender matchIndex
      nextIndex := n.nextIndex.insert sender (matchIndex + 1) }
  else
    let next := n.nextIndex[sender]?.getD (lastIndex n.storage + 1)
    (sendAppendTo { n with nextIndex := n.nextIndex.insert sender (max (next - 1) 1) } sender,.ok ())

def step (n : RaftNode S) (sender : NodeId) (message : Message) : RaftNode S × RaftResult Unit :=
  let (n,entered) :=
    if messageTerm message > n.term then n.becomeFollower (messageTerm message) none else (n,.ok ())
  match entered with
  | .error e => (n,.error e)
  | .ok () => match message with
    | .requestVote term lastLogIndex lastLogTerm =>
      n.handleRequestVote sender term lastLogIndex lastLogTerm
    | .requestVoteResp term granted => n.handleVoteResp sender term granted
    | .appendEntries term prevLogIndex prevLogTerm entries leaderCommit =>
      n.handleAppendEntries sender term prevLogIndex prevLogTerm entries leaderCommit
    | .appendEntriesResp term success matchIndex => n.handleAppendResp sender term success matchIndex

theorem becomeLeader_fst (n : RaftNode S) : n.becomeLeader.1 = (n.lead.appendOwn .noop).1 := by
  unfold becomeLeader
  split <;> simp [*]

theorem appendOwn_rule {P : RaftNode S → Prop} (n : RaftNode S) (command : Command)
    (appended : P (n.append [⟨n.term,lastIndex n.storage + 1,command⟩]).1)
    (counted : ∀ m, P m → P (maybeAdvanceCommit { m with
      matchIndex := m.matchIndex.insert m.config.id (lastIndex n.storage + 1) }).1)
    (offered : ∀ m, P m → P m.broadcastAppend) : P (n.appendOwn command).1 := by
  unfold appendOwn
  dsimp only
  split
  · rename_i failed
    rwa [failed] at appended
  · rename_i m done
    rw [done] at appended
    have advanced := counted m appended
    split
    · rename_i failed
      rwa [failed] at advanced
    · rename_i m' done
      rw [done] at advanced
      exact offered m' advanced

theorem storeEntry_rule {P : S → Prop} (appended : ∀ s entries, P s → P (RaftStorage.append s entries).1)
    (cut : ∀ s index, P s → P (truncateFrom s index).1) {s : S} (holds : P s) (entry : LogEntry) :
    P (storeEntry s entry).1 := by
  unfold storeEntry
  split
  · split
    · exact holds
    have shorter := cut s entry.index holds
    split
    · rename_i failed
      rwa [failed] at shorter
    · rename_i done
      rw [done] at shorter
      exact appended _ _ shorter
  · exact appended _ _ holds

theorem storeEntries_rule {P : S → Prop} (appended : ∀ s entries, P s → P (RaftStorage.append s entries).1)
    (cut : ∀ s index, P s → P (truncateFrom s index).1) {s : S} (holds : P s) (entries : List LogEntry) :
    P (storeEntries s entries).1 := by
  induction entries generalizing s with
  | nil => exact holds
  | cons entry rest ih =>
    have first := storeEntry_rule appended cut holds entry
    rw [storeEntries]
    split
    · rename_i failed
      rwa [failed] at first
    · rename_i done
      rw [done] at first
      exact ih first

theorem acceptEntries_rule {P : RaftNode S → Prop} (n : RaftNode S) (sender : NodeId) (prevLogIndex prevLogTerm : Nat)
    (entries : List LogEntry) (leaderCommit : Nat) (holds : P n)
    (stored : P { n with storage := (storeEntries n.storage entries).1 })
    (committed : n.commitIndex < leaderCommit → P (persistCommitIndex { n with
      storage := (storeEntries n.storage entries).1
      commitIndex := min leaderCommit (lastIndex (storeEntries n.storage entries).1) }).1)
    (replied : ∀ m success index, P m → P (m.send sender (.appendEntriesResp m.term success index))) :
    P (n.acceptEntries sender prevLogIndex prevLogTerm entries leaderCommit).1 := by
  unfold acceptEntries
  split
  · exact replied n _ _ holds
  split
  · rename_i failed
    rwa [failed] at stored
  rename_i s done
  rw [done] at stored committed
  have saved : P (if leaderCommit > n.commitIndex then
      persistCommitIndex { n with storage := s, commitIndex := min leaderCommit (lastIndex s) }
    else ({ n with storage := s },.ok ())).1 := by
    split
    · exact committed ‹_›
    · exact stored
  dsimp only
  split
  · exact saved
  · exact replied _ _ _ saved

/-- What every single change that a leader's replication makes to it keeps. -/
structure Replicates (P : RaftNode S → Prop) : Prop where
  track {n : RaftNode S} (next matched : ExtTreeMap NodeId Nat compare) (holds : P n) :
    P { n with nextIndex := next, matchIndex := matched }
  offer {n : RaftNode S} (peer : NodeId) (holds : P n) : P (n.sendAppendTo peer)
  append {n : RaftNode S} (entries : List LogEntry) (holds : P n) : P (n.append entries).1
  commit {n : RaftNode S} {index : Nat} (further : n.commitIndex ≤ index) (holds : P n) :
    P (persistCommitIndex { n with commitIndex := index }).1

namespace Replicates
variable {P : RaftNode S → Prop} {n : RaftNode S} (rule : Replicates P) (holds : P n)
include rule holds

theorem broadcastAppend : P n.broadcastAppend := List.foldlRecOn _ _ holds (fun _ kept peer _ => rule.offer peer kept)

theorem maybeAdvanceCommit : P n.maybeAdvanceCommit.1 := by
  unfold RaftNode.maybeAdvanceCommit
  dsimp only
  split
  · exact rule.commit (Nat.le_of_lt ‹_›) holds
  · exact holds

theorem appendOwn (command : Command) : P (n.appendOwn command).1 :=
  appendOwn_rule n command (rule.append _ holds) (fun _ kept => rule.maybeAdvanceCommit (rule.track _ _ kept))
    (fun _ kept => rule.broadcastAppend kept)

theorem handleAppendResp (sender : NodeId) (term : Nat) (success : Bool) (matchIndex : Nat) :
    P (n.handleAppendResp sender term success matchIndex).1 := by
  unfold RaftNode.handleAppendResp
  split
  · exact holds
  split
  · exact rule.maybeAdvanceCommit (rule.track _ _ holds)
  · exact rule.offer _ (rule.track _ _ holds)

end Replicates

theorem storage_broadcastAppend (n : RaftNode S) : n.broadcastAppend.storage = n.storage :=
  List.foldlRecOn (motive := fun m : RaftNode S => m.storage = n.storage) _ _ rfl (fun _ same _ _ => same)

omit [RaftStorage S] in
theorem storage_sent (peers : List NodeId) (message : Message) (n : RaftNode S) :
    (peers.foldl (fun m peer => m.send peer message) n).storage = n.storage :=
  List.foldlRecOn (motive := fun m : RaftNode S => m.storage = n.storage) _ _ rfl (fun _ same _ _ => same)

theorem getElem?_trackPeers (peers : List NodeId) (index : Nat) (j : NodeId) :
    (trackPeers peers index)[j]? = if j ∈ peers then some index else none := by
  rw [trackPeers,Library.TreeMap.getElem?_foldl_insert]
  simp

theorem getElem?_votes_stand (n : RaftNode S) (j : NodeId) :
    n.stand.votes[j]? = if n.config.id = j then some true else none := by
  simp [stand,saveHardState,resetElectionTimeout,Library.TreeMap.getElem?_insert_eq]

theorem own_vote_stand (n : RaftNode S) {j : NodeId} (held : n.stand.votes[j]? = some true) : j = n.config.id := by
  rw [getElem?_votes_stand] at held
  split at held
  · exact Eq.symm ‹_›
  · cases held

theorem one_vote_stand (n : RaftNode S) : 0 < n.stand.votes.toList.countP (fun p => p.2) := by
  have own : (n.config.id,true) ∈ n.stand.votes.toList := by
    rw [ExtTreeMap.mem_toList_iff_getElem?_eq_some,getElem?_votes_stand,if_pos rfl]
  exact List.countP_pos_iff.mpr ⟨_,own,rfl⟩

theorem foldl_last_cases (P : Nat → Prop) [DecidablePred P] (indexes : List Nat) (start : Nat) :
    indexes.foldl (fun last i => if P i then i else last) start = start ∨
      indexes.foldl (fun last i => if P i then i else last) start ∈ indexes ∧
        P (indexes.foldl (fun last i => if P i then i else last) start) := by
  induction indexes generalizing start with
  | nil => exact .inl rfl
  | cons i rest ih =>
    rw [List.foldl_cons]
    rcases ih (if P i then i else start) with same | ⟨inside,passes⟩
    · rw [same]
      split
      · rename_i passes
        exact .inr ⟨by simp,passes⟩
      · exact .inl rfl
    · exact .inr ⟨List.mem_cons_of_mem _ inside,passes⟩

theorem replicatedIndex_cases (n : RaftNode S) : n.replicatedIndex = n.commitIndex ∨
    n.commitIndex < n.replicatedIndex ∧ n.replicatedIndex ≤ lastIndex n.storage ∧
      n.config.majority ≤ n.matchIndex.toList.countP (fun p => p.2 ≥ n.replicatedIndex) ∧
      termAt n.storage n.replicatedIndex = some n.term := by
  rcases foldl_last_cases (fun i => n.config.majority ≤ n.matchIndex.toList.countP (fun p => p.2 ≥ i) ∧
    termAt n.storage i = some n.term) (List.range' (n.commitIndex + 1) (lastIndex n.storage - n.commitIndex))
    n.commitIndex with same | ⟨inside,passes⟩
  · exact .inl same
  · have range := List.mem_range'_1.mp inside
    exact .inr ⟨by unfold replicatedIndex; omega,by unfold replicatedIndex; omega,passes⟩

end RaftNode

namespace FileStorage

def Appends (command : Command) (s s' : FileStorage) : Prop :=
  s'.baseIndex = s.baseIndex ∧
    (s'.entries = s.entries ∨ ∃ term, s'.entries = s.entries ++ [⟨term,s.lastIndex + 1,command⟩])

theorem entryAt_getElem? (s : FileStorage) {index : Nat} (after : s.baseIndex < index) :
    s.entryAt index = s.entries[index - s.baseIndex - 1]? := by
  unfold entryAt slot
  rw [if_neg (Nat.not_le.mpr after)]
  split
  · rfl
  · rename_i beyond
    rw [List.getElem?_eq_none (Nat.not_lt.mp beyond)]
    rfl

theorem Appends.entryAt {command : Command} {s s' : FileStorage} (appends : Appends command s s') {index : Nat}
    {entry : LogEntry} (found : s'.entryAt index = some entry) :
    s.entryAt index = some entry ∨ index = s.lastIndex + 1 ∧ entry.command = command := by
  obtain ⟨base,entries⟩ := appends
  by_cases low : index ≤ s.baseIndex
  · rw [FileStorage.entryAt,FileStorage.slot,base,if_pos low] at found
    cases found
  have after := Nat.not_le.mp low
  rw [entryAt_getElem? s after]
  rw [entryAt_getElem? s' (base ▸ after),base] at found
  rcases entries with same | ⟨term,longer⟩
  · rw [same] at found
    exact .inl found
  · rw [longer,List.getElem?_append] at found
    split at found
    · exact .inl found
    · obtain ⟨last,rfl⟩ := List.getElem?_eq_some_iff.mp found
      simp only [List.length_singleton] at last
      refine .inr ⟨?_,by simp⟩
      rw [FileStorage.lastIndex]
      omega

section
variable (n : RaftNode FileStorage)
include n

theorem entries_maybeAdvanceCommit : n.maybeAdvanceCommit.1.storage.entries = n.storage.entries ∧
      n.maybeAdvanceCommit.1.storage.baseIndex = n.storage.baseIndex ∧ n.maybeAdvanceCommit.2 = .ok () := by
  unfold RaftNode.maybeAdvanceCommit RaftNode.persistCommitIndex
  dsimp only
  split
  · split
    · exact ⟨rfl,rfl,rfl⟩
    · exact ⟨rfl,rfl,rfl⟩
  · exact ⟨rfl,rfl,rfl⟩

theorem appends_appendOwn (command : Command) : Appends command n.storage (n.appendOwn command).1.storage ∧
      (∀ index, (n.appendOwn command).2 = .ok index → index = n.storage.lastIndex + 1) ∧
      ∀ e, (n.appendOwn command).2 = .error e → (n.appendOwn command).1.storage.entries = n.storage.entries := by
  have last : RaftStorage.lastIndex n.storage = n.storage.lastIndex := rfl
  rcases stored : n.storage.append [⟨n.term,n.storage.lastIndex + 1,command⟩] with ⟨s,e | u⟩
  · have same : s = n.storage := by
      unfold append at stored
      split at stored <;> cases stored
      rfl
    have done : n.appendOwn command = ({ n with storage := s },.error e) := by
      unfold RaftNode.appendOwn RaftNode.append
      rw [last]
      have stored : RaftStorage.append n.storage [⟨n.term,n.storage.lastIndex + 1,command⟩] = (s,.error e) := stored
      simp only [stored]
    rw [done]
    refine ⟨⟨by rw [same],.inl (by rw [same])⟩,by simp,fun _ _ => by rw [same]⟩
  · have grown : s = { n.storage with entries := n.storage.entries ++ [⟨n.term,n.storage.lastIndex + 1,command⟩] } := by
      unfold append at stored
      split at stored <;> cases stored
      rfl
    have counted := entries_maybeAdvanceCommit
      { n with storage := s, matchIndex := n.matchIndex.insert n.config.id (n.storage.lastIndex + 1) }
    have done : n.appendOwn command = (RaftNode.broadcastAppend (RaftNode.maybeAdvanceCommit
        { n with storage := s
                 matchIndex := n.matchIndex.insert n.config.id (n.storage.lastIndex + 1) }).1,
        .ok (n.storage.lastIndex + 1)) := by
      unfold RaftNode.appendOwn RaftNode.append
      rw [last]
      have stored : RaftStorage.append n.storage [⟨n.term,n.storage.lastIndex + 1,command⟩] = (s,.ok ()) := stored
      simp only [stored]
      split
      · rename_i failed
        rw [failed] at counted
        cases counted.2.2
      · rename_i advanced
        rw [advanced]
    rw [done]
    simp only [RaftNode.storage_broadcastAppend]
    refine ⟨⟨counted.2.1.trans (by rw [grown]),.inr ⟨n.term,counted.1.trans (by rw [grown])⟩⟩,by simp,by simp⟩

theorem appends_campaign : Appends .noop n.storage n.campaign.storage := by
  unfold RaftNode.campaign
  dsimp only
  split
  · rw [RaftNode.becomeLeader_fst]
    obtain ⟨⟨base,entries⟩,-⟩ := appends_appendOwn n.stand.lead .noop
    exact ⟨base,entries⟩
  · rw [RaftNode.storage_sent]
    exact ⟨rfl,.inl rfl⟩

end

end FileStorage

structure Packet where
  sender : NodeId
  recipient : NodeId
  message : Message
  deriving DecidableEq, Repr

structure Cluster (S : Type) where
  nodes : ExtTreeMap NodeId (RaftNode S) compare
  sent : List Packet

inductive ClusterAct where
  | tick (id : NodeId)
  | campaign (id : NodeId)
  | propose (id : NodeId) (command : Command)
  | collect (id : NodeId)
  | deliver (position : Nat)
  | takeCommitted (id : NodeId)
  | restart (id : NodeId)

/-- Which node came to lead which term, and the entries a node returned as committed. -/
inductive Seen where
  | leads (id : NodeId) (term : Nat)
  | committed (id : NodeId) (entries : List LogEntry)
  deriving DecidableEq, Repr

namespace Cluster
variable {S : Type} [RaftStorage S]

def leadership (id : NodeId) (before after : RaftNode S) : List Seen :=
  if after.role = .leader ∧ ¬ (before.role = .leader ∧ before.term = after.term) then
    [.leads id after.term]
  else []

def call (c : Cluster S) (id : NodeId) (f : RaftNode S → RaftNode S) : Option (Cluster S × List Seen) :=
  match c.nodes[id]? with
  | none => none
  | some n => some ({ c with nodes := c.nodes.insert id (f n) },leadership id n (f n))

def step (c : Cluster S) : ClusterAct → Option (Cluster S × List Seen)
  | .tick id => c.call id RaftNode.tick
  | .campaign id => c.call id RaftNode.campaign
  | .propose id command => c.call id (fun n => (n.propose command).1)
  | .restart id => c.call id (fun n => RaftNode.new n.config n.storage)
  | .deliver position => match c.sent[position]? with
    | none => none
    | some packet => c.call packet.recipient (fun n => (n.step packet.sender packet.message).1)
  | .collect id => match c.nodes[id]? with
    | none => none
    | some n =>
      let (n,out) := n.takeMessages
      some ({ nodes := c.nodes.insert id n
              sent := c.sent ++ out.map (fun e => ⟨id,e.recipient,e.message⟩) },[])
  | .takeCommitted id => match c.nodes[id]? with
    | none => none
    | some n =>
      let (n,entries) := n.takeCommitted
      some ({ c with nodes := c.nodes.insert id n },[.committed id entries])

def start (voters : List NodeId) (config : NodeId → RaftConfig) (storage : NodeId → S) : Cluster S where
  nodes := voters.foldl (fun nodes id => nodes.insert id (RaftNode.new (config id) (storage id))) ∅
  sent := []

end Cluster

def Shared (voters : List NodeId) (config : NodeId → RaftConfig) : Prop :=
  ∀ id ∈ voters, (config id).id = id ∧ (config id).peers.Perm (voters.erase id)

end AuraDb.Raft
