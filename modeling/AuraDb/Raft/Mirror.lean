import AuraDb.Library.ConsensusStep
import AuraDb.Raft.Election

/-! A node as a party of abstract replication: its log, term and vote are those of the abstract state; what it
has queued and believes of its peers is covered by the history. -/
namespace AuraDb.Raft
open Std RaftStorage LawfulRaftStorage Library.Consensus
variable {voters : List NodeId} {g : History}

abbrev History := State NodeId LogEntry

/-- The entries follow the previous index, and the commit index is within them. -/
def Gapless (prevLogIndex : Nat) (entries : List LogEntry) (leaderCommit : Nat) : Prop :=
  (∀ e ∈ entries.head?, e.index = prevLogIndex + 1) ∧ leaderCommit ≤ prevLogIndex + entries.length

/-- A part of the leader's log, right after the previous index and to its end at that
time. -/
structure Ships (voters : List NodeId) (g : History) (term prevLogIndex prevLogTerm : Nat)
    (entries : List LogEntry) (leaderCommit : Nat) : Prop where
  bound : prevLogIndex ≤ (g.leaderLog term).length
  whole : (g.leaderLog term).take prevLogIndex ++ entries <+: g.leaderLog term
  prevTerm : termOf (g.leaderLog term) prevLogIndex = some prevLogTerm
  commit : leaderCommit ≤ prevLogIndex + entries.length
  committed : Committed voters g term ((g.leaderLog term).take leaderCommit)

section
variable {term prevLogIndex prevLogTerm leaderCommit : Nat}
  {entries : List LogEntry} (ships : Ships voters g term prevLogIndex prevLogTerm entries leaderCommit)
include ships

theorem Ships.sent : (g.leaderLog term).take prevLogIndex ++ entries =
    (g.leaderLog term).take (prevLogIndex + entries.length) := by
  have whole := List.prefix_iff_eq_take.mp ships.whole
  rwa [List.length_append,List.length_take_of_le ships.bound] at whole

theorem Ships.short : prevLogIndex + entries.length ≤ (g.leaderLog term).length := by
  have le := ships.whole.length_le
  rwa [List.length_append,List.length_take_of_le ships.bound] at le

end

/-- What a leader sends when the previous index is in its compacted part. -/
def Cut (prevLogIndex prevLogTerm : Nat) (entries : List LogEntry) (leaderCommit : Nat) : Prop :=
  0 < prevLogIndex ∧ prevLogTerm = 0 ∨ prevLogIndex = 0 ∧ ¬ Gapless prevLogIndex entries leaderCommit

/-- A message a node may be handed: with the previous index at zero it has no gap. -/
def Whole : Message → Prop
  | .appendEntries _ prevLogIndex _ entries leaderCommit =>
    prevLogIndex = 0 → Gapless prevLogIndex entries leaderCommit
  | _ => True

/-- What a message says of the history. One from a compacted leader is only there when `cut` holds. -/
def Told (voters : List NodeId) (cut : Prop) (g : History) (sender recipient : NodeId) : Message → Prop
  | .requestVote term lastLogIndex lastLogTerm => ∃ log, g.stood sender term = some log ∧
      log.length = lastLogIndex ∧ lastTerm log = lastLogTerm
  | .requestVoteResp term granted => granted = true → g.vote sender term = some recipient
  | .appendEntries term prevLogIndex prevLogTerm entries leaderCommit => g.lead term = some sender ∧
      (Ships voters g term prevLogIndex prevLogTerm entries leaderCommit ∨
        cut ∧ Cut prevLogIndex prevLogTerm entries leaderCommit)
  | .appendEntriesResp term success matchIndex => success = true →
      g.lead term = some recipient ∧ matchIndex ≤ g.acked sender term

variable {S : Type} [RaftStorage S] [LawfulRaftStorage S]

structure Mirrors (voters : List NodeId) (cut : Prop) (g : History) (id : NodeId) (n : RaftNode S) : Prop where
  self : n.config.id = id
  size : n.config.voters = voters.length
  member : id ∈ voters
  peers : ∀ peer ∈ n.config.peers, peer ∈ voters
  term : n.term = g.term id
  votedFor : (hardState n.storage).votedFor = g.vote id (g.term id)
  holds : Holds n.storage (g.log id)
  saved : (hardState n.storage).commitIndex = n.commitIndex
  base : base n.storage ≤ n.commitIndex
  applied : LawfulRaftStorage.base n.storage ≤ n.lastApplied ∧ (0 < LawfulRaftStorage.base n.storage → cut)
  bound : n.commitIndex ≤ (g.log id).length
  committed : Committed voters g (g.term id) ((g.log id).take n.commitIndex)
  candidate : n.role = .candidate → g.stood id (g.term id) = some (g.log id) ∧
    g.lead (g.term id) ≠ some id ∧
    ∀ j : NodeId, n.votes[j]? = some true → j ∈ voters ∧ g.vote j (g.term id) = some id
  leader : n.role = .leader → g.lead (g.term id) = some id ∧ g.leaderLog (g.term id) = g.log id ∧
    (∀ (j : NodeId) (m : Nat), n.matchIndex[j]? = some m → j ∈ voters ∧ m ≤ g.acked j (g.term id)) ∧
    ∀ (j : NodeId) (k : Nat), n.nextIndex[j]? = some k → 0 < k ∧ k ≤ (g.log id).length + 1
  outbox : ∀ e ∈ n.outbox, Told voters cut g id e.recipient e.message

structure Tracked (voters : List NodeId) (cut : Prop) (g : History) (id : NodeId) (n : RaftNode S) : Prop
    extends Mirrors voters cut g id n where
  inv : Inv voters g
  numbered : ∀ t, Numbered (g.leaderLog t)

section Growth
variable {cut : Prop} {g' : History}

theorem Ships.mono {term prevLogIndex prevLogTerm leaderCommit : Nat} {entries : List LogEntry}
    (ships : Ships voters g term prevLogIndex prevLogTerm entries leaderCommit) (grows : Grows g g') :
    Ships voters g' term prevLogIndex prevLogTerm entries leaderCommit := by
  obtain ⟨rest,longer⟩ := grows.leaderLog term
  have inside : leaderCommit ≤ (g.leaderLog term).length := by
    have le := ships.whole.length_le
    have bound := ships.bound
    have commit := ships.commit
    simp only [List.length_append,List.length_take] at le
    omega
  refine ⟨?_,?_,?_,ships.commit,?_⟩
  · exact ships.bound.trans (grows.leaderLog term).length_le
  · rw [← longer,List.take_append_of_le_length ships.bound]
    exact ships.whole.trans (List.prefix_append ..)
  · rw [← termOf_shorter (grows.leaderLog term) ships.bound]
    exact ships.prevTerm
  · rw [← longer,List.take_append_of_le_length inside]
    exact ships.committed.mono grows le_rfl

variable {id recipient sender : NodeId} {n : RaftNode S}
section
variable {message : Message} (told : Told voters cut g sender recipient message)
include told

theorem Told.mono (grows : Grows g g') : Told voters cut g' sender recipient message := by
  cases message with
  | requestVote term lastLogIndex lastLogTerm =>
    obtain ⟨log,stood,same⟩ := told
    exact ⟨log,grows.stood _ _ _ stood,same⟩
  | requestVoteResp term granted => exact fun yes => grows.vote _ _ _ (told yes)
  | appendEntries term prevLogIndex prevLogTerm entries leaderCommit =>
    exact ⟨grows.lead _ _ told.1,told.2.imp_left (fun ships => ships.mono grows)⟩
  | appendEntriesResp term success matchIndex =>
    intro yes
    obtain ⟨leads,le⟩ := told yes
    exact ⟨grows.lead _ _ leads,le.trans (grows.acked _ _)⟩

theorem Told.whole (uncut : ¬ cut) (numbered : ∀ t, Numbered (g.leaderLog t)) : Whole message := by
  cases message with
  | appendEntries term prevLogIndex prevLogTerm entries leaderCommit =>
    rintro rfl
    have ships := told.2.resolve_right (fun both => uncut both.1)
    refine ⟨?_,ships.commit⟩
    intro e first
    obtain ⟨rest,rfl⟩ := List.head?_eq_some_iff.mp first
    obtain ⟨more,whole⟩ := ships.whole
    exact numbered term 0 e (by rw [← whole]; rfl)
  | _ => trivial

end

section
variable (mirrors : Mirrors voters cut g id n) (grows : Grows g g') (term : g'.term id = g.term id)
  (log : g'.log id = g.log id)
include mirrors grows term log

theorem Mirrors.candidate_mono (leads : g'.lead (g.term id) = some id → g.lead (g.term id) = some id)
    (role : n.role = .candidate) :
    g'.stood id (g'.term id) = some (g'.log id) ∧ g'.lead (g'.term id) ≠ some id ∧
      ∀ j : NodeId, n.votes[j]? = some true → j ∈ voters ∧ g'.vote j (g'.term id) = some id := by
  obtain ⟨stood,unled,votes⟩ := mirrors.candidate role
  rw [log,term]
  refine ⟨grows.stood _ _ _ stood,fun now => unled (leads now),?_⟩
  intro j held
  obtain ⟨member,voted⟩ := votes j held
  exact ⟨member,grows.vote _ _ _ voted⟩

theorem Mirrors.leader_mono (same : g.lead (g.term id) = some id → g'.leaderLog (g.term id) = g.leaderLog (g.term id))
    (role : n.role = .leader) : g'.lead (g'.term id) = some id ∧ g'.leaderLog (g'.term id) = g'.log id ∧
      (∀ (j : NodeId) (m : Nat), n.matchIndex[j]? = some m → j ∈ voters ∧ m ≤ g'.acked j (g'.term id)) ∧
      ∀ (j : NodeId) (k : Nat), n.nextIndex[j]? = some k → 0 < k ∧ k ≤ (g'.log id).length + 1 := by
  obtain ⟨leads,own,matched,nexts⟩ := mirrors.leader role
  rw [log,term]
  refine ⟨grows.lead _ _ leads,(same leads).trans own,?_,nexts⟩
  intro j m found
  obtain ⟨member,le⟩ := matched j m found
  exact ⟨member,le.trans (grows.acked _ _)⟩

end

theorem Mirrors.mono {other : NodeId} (mirrors : Mirrors voters cut g other n) (moved : Local id g g')
    (different : other ≠ id) : Mirrors voters cut g' other n := by
  have term := moved.terms other different
  have vote := moved.votes other different
  have log := moved.logs other different
  constructor
  · exact mirrors.self
  · exact mirrors.size
  · exact mirrors.member
  · exact mirrors.peers
  · rw [term,mirrors.term]
  · rw [term,vote,mirrors.votedFor]
  · rw [log]
    exact mirrors.holds
  · exact mirrors.saved
  · exact mirrors.base
  · exact mirrors.applied
  · rw [log]
    exact mirrors.bound
  · rw [log,term]
    exact mirrors.committed.mono moved.toGrows le_rfl
  · exact mirrors.candidate_mono moved.toGrows term log (moved.leads _ _ different)
  · exact mirrors.leader_mono moved.toGrows term log (moved.leaderLogs _ _ different)
  · intro e inside
    exact (mirrors.outbox e inside).mono moved.toGrows

end Growth

section Store
variable {log own : List LogEntry} {i term : Nat} {before : List LogEntry}

theorem take_of_termOf (found : termOf log i = some term) (positive : 0 < i) :
    ∃ e, log.take i = log.take (i - 1) ++ [e] ∧ log[i - 1]? = some e ∧ e.term = term := by
  rw [termOf,if_neg (Nat.ne_of_gt positive)] at found
  obtain ⟨e,at',same⟩ := Option.map_eq_some_iff.mp found
  refine ⟨e,?_,at',same⟩
  have next := List.take_add_one (l := log) (i := i - 1)
  rwa [at',Nat.sub_add_cancel positive] at next

theorem le_length_of_termOf (found : termOf log i = some term) : i ≤ log.length := by
  rcases Nat.eq_zero_or_pos i with rfl | positive
  · exact Nat.zero_le _
  · obtain ⟨e,-,at',-⟩ := take_of_termOf found positive
    have := (List.getElem?_eq_some_iff.mp at').1
    omega

theorem take_eq_of_termOf (grounded : Grounded g log) (grounded' : Grounded g own) (found : termOf log i = some term)
    (found' : termOf own i = some term) : log.take i = own.take i := by
  rcases Nat.eq_zero_or_pos i with rfl | positive
  · rfl
  obtain ⟨e,split,-,rfl⟩ := take_of_termOf found positive
  obtain ⟨e',split',-,same⟩ := take_of_termOf found' positive
  have inside := grounded _ e (split ▸ List.take_prefix i log)
  have inside' := grounded' _ e' (split' ▸ List.take_prefix i own)
  have stamp : Stamped.term e' = Stamped.term e := same
  rw [stamp,← split'] at inside'
  rw [← split] at inside
  have length := List.length_take_of_le (le_length_of_termOf found)
  have length' := List.length_take_of_le (le_length_of_termOf found')
  have first := List.prefix_of_prefix_length_le inside inside' (by omega)
  exact first.eq_of_length (by omega)

theorem lastTerm_le (inv : Inv voters g) {e : LogEntry} (grounded : Grounded g own)
    (inside : before ++ [e] <+: own) : lastTerm before ≤ e.term := by
  rcases List.eq_nil_or_concat before with rfl | ⟨front,x,rfl⟩
  · exact Nat.zero_le _
  · rw [List.concat_eq_append] at *
    rw [lastTerm_concat]
    exact inv.leaderLog_past _ x ((grounded _ e inside).mem (by simp))

/-- The log stays or becomes a part of the leader's log, loses nothing the two have in common, and without an
error has all that was sent. -/
structure Stored (log taken leader sent : List LogEntry) (ok : Prop) : Prop where
  inside : taken = log ∨ taken <+: leader
  common : ∀ held, held <+: log → held <+: leader → held <+: taken
  all : ok → sent <+: taken

section Next
variable {entry : LogEntry} (numbered : Numbered own) (next : before ++ [entry] <+: own)
include numbered next

theorem index_next : entry.index = before.length + 1 := by
  apply numbered before.length entry
  obtain ⟨rest,whole⟩ := next
  simp [← whole]

theorem termOf_next : termOf own entry.index = some entry.term := by
  rw [index_next numbered next,termOf,if_neg (by omega)]
  obtain ⟨rest,whole⟩ := next
  simp [← whole]

theorem shorter_of_conflict {existing : Nat} (found : termOf log entry.index = some existing)
    (conflict : existing ≠ entry.term) {held : List LogEntry} (inLog : held <+: log) (inLeader : held <+: own) :
    held <+: before ++ [entry] := by
  have position := index_next numbered next
  rcases List.prefix_or_prefix_of_prefix inLeader next with short | long
  · exact short
  have agreed := termOf_shorter (long.trans inLog) (i := entry.index) (by simp [position])
  have agreed' := termOf_shorter next (i := entry.index) (by simp [position])
  rw [← agreed,agreed',termOf_next numbered next] at found
  exact absurd (Option.some.inj found).symm conflict

end Next

theorem storeEntry_spec (inv : Inv voters g) {s : S} {entry : LogEntry} (holds : Holds s log)
    (grounded : Grounded g log) (numbered : Numbered (g.leaderLog term)) (prior : before <+: log)
    (next : before ++ [entry] <+: g.leaderLog term) : ∃ taken, Holds (RaftNode.storeEntry s entry).1 taken ∧
      base (RaftNode.storeEntry s entry).1 = base s ∧
      Stored log taken (g.leaderLog term) (before ++ [entry])
        ((RaftNode.storeEntry s entry).2 = .ok ()) := by
  have position := index_next numbered next
  have unchanged : ∀ ok : Prop, (ok → before ++ [entry] <+: log) →
      Stored log log (g.leaderLog term) (before ++ [entry]) ok :=
    fun ok all => ⟨.inl rfl,fun _ held _ => held,all⟩
  have le := prior.length_le
  have leaderGrounded := inv.leaderLog_grounded term
  have leaderTerm := termOf_next numbered next
  have takeLog : log.take before.length = before := List.prefix_iff_eq_take.mp prior |>.symm
  have takeLeader : (g.leaderLog term).take (before.length + 1) = before ++ [entry] := by
    have := List.prefix_iff_eq_take.mp next
    simpa using this.symm
  have later : lastTerm before ≤ entry.term := lastTerm_le inv leaderGrounded next
  have failing : ∀ {r : S × RaftResult Unit}, (∃ e, r = (s,.error e)) → ∃ taken, Holds r.1 taken ∧ base r.1 = base s ∧
        Stored log taken (g.leaderLog term) (before ++ [entry]) (r.2 = .ok ()) := by
    rintro r ⟨e,rfl⟩
    exact ⟨log,holds,rfl,unchanged _ (fun ok => by cases ok)⟩
  unfold RaftNode.storeEntry
  cases found : termAt s entry.index with
  | some existing =>
    have retained : base s ≤ entry.index := by
      by_contra cut
      rw [termAt_cut holds (by omega) (by omega)] at found
      cases found
    rw [termAt_eq holds retained] at found
    dsimp only
    split
    · rename_i same
      subst same
      refine ⟨log,holds,rfl,unchanged _ (fun _ => ?_)⟩
      rw [← takeLeader,← position,← take_eq_of_termOf grounded leaderGrounded found leaderTerm]
      exact List.take_prefix ..
    · rename_i conflict
      rcases Nat.lt_or_ge (base s) entry.index with after | cut
      · obtain ⟨s',truncated,holds',base'⟩ := truncate holds after
        rw [position,Nat.add_sub_cancel,takeLog] at holds'
        obtain ⟨s'',appended,holds'',base''⟩ := append_next holds' position later
        rw [truncated]
        simp only [appended]
        refine ⟨before ++ [entry],holds'',base''.trans base',.inr next,?_,fun _ => List.prefix_rfl⟩
        intro held inLog inLeader
        exact shorter_of_conflict numbered next found conflict inLog inLeader
      · obtain ⟨e,refused⟩ := truncate_cut holds (by omega) cut
        rw [refused]
        exact failing ⟨e,rfl⟩
  | none =>
    rcases Nat.lt_or_ge entry.index (base s) with cut | retained
    · have short := base_le holds
      exact failing (append_gap holds (by omega))
    · rw [termAt_eq holds retained,termOf,if_neg (by omega),Option.map_eq_none_iff,List.getElem?_eq_none_iff] at found
      have whole : before = log := prior.eq_of_length (by omega)
      subst whole
      obtain ⟨s',appended,holds',base'⟩ := append_next holds position later
      simp only [appended]
      exact ⟨_,holds',base',.inr next,fun held inLog _ => inLog.trans (List.prefix_append ..),
        fun _ => List.prefix_rfl⟩

theorem storeEntries_spec (inv : Inv voters g) (numbered : Numbered (g.leaderLog term)) (entries : List LogEntry)
    {s : S} (holds : Holds s log) (grounded : Grounded g log) (prior : before <+: log)
    (next : before ++ entries <+: g.leaderLog term) : ∃ taken, Holds (RaftNode.storeEntries s entries).1 taken ∧
      base (RaftNode.storeEntries s entries).1 = base s ∧
      Stored log taken (g.leaderLog term) (before ++ entries)
        ((RaftNode.storeEntries s entries).2 = .ok ()) := by
  induction entries generalizing s log before with
  | nil => exact ⟨log,holds,rfl,.inl rfl,fun _ held _ => held,fun _ => by simpa using prior⟩
  | cons entry rest ih =>
    have split : before ++ entry::rest = (before ++ [entry]) ++ rest := by simp
    rw [split] at next ⊢
    obtain ⟨taken,holds',base',stored⟩ := storeEntry_spec inv holds grounded numbered prior
      ((List.prefix_append ..).trans next)
    rw [RaftNode.storeEntries]
    cases done : RaftNode.storeEntry s entry with
    | mk s' result =>
      rw [done] at holds' base' stored
      cases result with
      | error e => exact ⟨taken,holds',base',stored.inside,stored.common,fun ok => by cases ok⟩
      | ok _ =>
        have grounded' : Grounded g taken := by
          rcases stored.inside with same | inLeader
          · exact same ▸ grounded
          · exact (inv.leaderLog_grounded term).of_shorter inLeader
        obtain ⟨last,holds'',base'',stored'⟩ := ih holds' grounded' (stored.all rfl) next
        refine ⟨last,holds'',base''.trans base',?_,?_,stored'.all⟩
        · rcases stored'.inside with same | inLeader
          · exact same ▸ stored.inside
          · exact .inr inLeader
        · intro held inLog inLeader
          exact stored'.common held (stored.common held inLog inLeader) inLeader

end Store

end AuraDb.Raft
