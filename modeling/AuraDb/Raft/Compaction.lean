import AuraDb.Raft.Safety

/-! Compaction on the file-backed log. A leader whose log no longer reaches back to a follower's next index
sends what it retains with a previous index of zero, which every follower accepts. -/
namespace AuraDb.Raft
open Std RaftStorage LawfulRaftStorage Library.Consensus

inductive FileAct where
  | act (a : ClusterAct)
  | compact (id : NodeId) (upTo : Nat)

def Cluster.fileStep (c : Cluster FileStorage) : FileAct → Option (Cluster FileStorage × List Seen)
  | .act a => c.step a
  | .compact id upTo => match c.nodes[id]? with
    | none => none
    | some n => some ({ c with
        nodes := c.nodes.insert id { n with storage := (n.storage.compact upTo n.lastApplied).1 } },[])

def GaplessDelivery (c : Cluster FileStorage) : FileAct → Prop
  | .act (.deliver position) => ∀ p, c.sent[position]? = some p → Whole p.message
  | _ => True

namespace Simulated
variable {voters : List NodeId} {g : History} {shown : List Seen} {c c' : Cluster FileStorage}
section
variable (held : Simulated voters True g shown c)
include held

theorem compact {id : NodeId} {n : RaftNode FileStorage} (found : c.nodes[id]? = some n) (upTo : Nat) :
    Simulated voters True g shown { c with
      nodes := c.nodes.insert id { n with storage := (n.storage.compact upTo n.lastApplied).1 } } := by
  have tracked := held.tracked found
  obtain ⟨holds,sameHard,moved⟩ := FileStorage.Retains.compact tracked.holds upTo n.lastApplied
  have hard : hardState (n.storage.compact upTo n.lastApplied).1 = hardState n.storage := sameHard
  have low : base (n.storage.compact upTo n.lastApplied).1 ≤ n.commitIndex ∧
      base (n.storage.compact upTo n.lastApplied).1 ≤ n.lastApplied := by
    change (n.storage.compact upTo n.lastApplied).1.baseIndex ≤ _ ∧
      (n.storage.compact upTo n.lastApplied).1.baseIndex ≤ _
    have saved : n.storage.hardState.commitIndex = n.commitIndex := tracked.saved
    rcases moved with same | ⟨there,committed,applied⟩
    · rw [same]
      exact ⟨tracked.base,tracked.applied.1⟩
    · rw [there,← saved]
      exact ⟨committed,applied⟩
  have compacted : Tracked voters True g id { n with storage := (n.storage.compact upTo n.lastApplied).1 } := by
    refine ⟨⟨tracked.self,tracked.size,tracked.member,tracked.peers,?_,?_,holds,?_,low.1,⟨low.2,fun _ => trivial⟩,
      tracked.bound,tracked.committed,tracked.candidate,tracked.leader,tracked.outbox⟩,tracked.inv,tracked.numbered⟩
    · simpa [RaftNode.term,hard] using tracked.term
    · simpa [hard] using tracked.votedFor
    · simpa [hard] using tracked.saved
  simpa using held.replace (.refl id g) compacted [] (by simp)

theorem fileStep {act : FileAct} {seen : List Seen}
    (taken : c.fileStep act = some (c',seen)) (gapless : GaplessDelivery c act) :
    ∃ g', Grows g g' ∧ Simulated voters True g' (shown ++ seen) c' := by
  cases act with
  | act a =>
    apply held.step taken
    rintro position p rfl found
    exact gapless p found
  | compact id upTo =>
    simp only [Cluster.fileStep] at taken
    split at taken
    · cases taken
    · rename_i n found
      cases taken
      exact ⟨g,.refl g,by simpa using held.compact found upTo⟩

theorem fileRun {later : List Seen} (run : Library.Run Cluster.fileStep GaplessDelivery c later c') :
    ∃ g', Grows g g' ∧ Simulated voters True g' (shown ++ later) c' := by
  induction run with
  | start => exact ⟨g,.refl g,by simpa using held⟩
  | next before act allowed taken ih =>
    obtain ⟨g1,grows,held1⟩ := ih
    obtain ⟨g2,grows',held2⟩ := held1.fileStep taken allowed
    exact ⟨g2,grows.trans grows',by simpa using held2⟩

end

end Simulated

theorem FileStorage.Retains.entryAt {s : FileStorage} {log : List LogEntry} (held : s.Retains log) {i : Nat}
    {e : LogEntry} (found : s.entryAt i = some e) : 0 < i ∧ log[i - 1]? = some e := by
  have after : s.baseIndex < i := by
    by_contra cut
    rw [FileStorage.entryAt,FileStorage.slot,if_pos (Nat.not_lt.mp cut)] at found
    cases found
  exact ⟨Nat.zero_lt_of_lt after,held.slot after ▸ found⟩

private theorem same_entry {mine leader log : List LogEntry} {i m : Nat} {e e' : LogEntry}
    (grown : leader <+: log) (agreed : log.take m <+: mine) (positive : 0 < i) (le : i ≤ m)
    (first : leader[i - 1]? = some e) (second : mine[i - 1]? = some e') : e = e' := by
  obtain ⟨rest,rfl⟩ := grown
  obtain ⟨more,rfl⟩ := agreed
  have inside := (List.getElem?_eq_some_iff.mp first).1
  have there : ((leader ++ rest).take m)[i - 1]? = some e := by
    rw [List.getElem?_take_of_lt (by omega),List.getElem?_append_left inside,first]
  rw [List.getElem?_append_left (List.getElem?_eq_some_iff.mp there).1,there] at second
  exact Option.some.inj second

/-- When no message with a gap was handed out: a follower that answers a leader's message with success, or
commits on it, has that leader's entry at every index up to it that both retain. -/
theorem compacted_log_matching {voters : List NodeId} {config : NodeId → RaftConfig}
    (shared : Shared voters config) {shown later : List Seen} {c0 c : Cluster FileStorage}
    (run : Library.Run Cluster.fileStep GaplessDelivery
      (Cluster.start voters config (fun _ => ({} : FileStorage))) shown c0)
    (more : Library.Run Cluster.fileStep GaplessDelivery c0 later c)
    {sender id : NodeId} {term prevLogIndex prevLogTerm leaderCommit position : Nat} {entries : List LogEntry}
    {l n : RaftNode FileStorage} (leader : c0.nodes[sender]? = some l) (role : l.role = .leader)
    (leads : l.term = term) (follower : c.nodes[id]? = some n)
    (sent : c.sent[position]? =
      some ⟨sender,id,.appendEntries term prevLogIndex prevLogTerm entries leaderCommit⟩)
    (whole : Whole (.appendEntries term prevLogIndex prevLogTerm entries leaderCommit)) :
    let n' := (n.step sender (.appendEntries term prevLogIndex prevLogTerm entries leaderCommit)).1
    (∀ m, n'.outbox = n.outbox ++ [⟨sender,.appendEntriesResp term true m⟩] → ∀ i e e', i ≤ m →
      l.storage.entryAt i = some e → n'.storage.entryAt i = some e' →
      e.term = e'.term ∧ e.command = e'.command) ∧
    (∀ i e e', n.commitIndex < i → i ≤ n'.commitIndex →
      l.storage.entryAt i = some e → n'.storage.entryAt i = some e' → e = e') := by
  obtain ⟨g0,-,held0⟩ := (Simulated.start shared _ (file_fresh voters)).fileRun run
  obtain ⟨g,grows,held⟩ := held0.fileRun more
  obtain ⟨member,told⟩ := held.packet _ (List.mem_of_getElem? sent)
  obtain ⟨g',moved,tracked,agreed⟩ := (held.tracked follower).step member told whole
  have accepted := agreed term prevLogIndex prevLogTerm entries leaderCommit rfl
  have mirrors := held0.node sender l leader
  obtain ⟨-,own,-,-⟩ := mirrors.leader role
  rw [← mirrors.term,leads] at own
  have longer : g0.log sender <+: g'.leaderLog term := by
    rw [← own]
    exact (grows.leaderLog term).trans (moved.leaderLog term)
  refine ⟨?_,?_⟩
  · intro m answer i e e' le first second
    obtain ⟨positive,at'⟩ := FileStorage.Retains.entryAt mirrors.holds first
    obtain ⟨-,at''⟩ := FileStorage.Retains.entryAt tracked.holds second
    have same := same_entry longer (accepted.answered m answer) positive le at' at''
    exact ⟨same ▸ rfl,same ▸ rfl⟩
  · intro i e e' after le first second
    obtain ⟨positive,at'⟩ := FileStorage.Retains.entryAt mirrors.holds first
    obtain ⟨-,at''⟩ := FileStorage.Retains.entryAt tracked.holds second
    exact same_entry longer (accepted.committed (Nat.lt_of_lt_of_le after le)) positive le at' at''

instance (prevLogIndex : Nat) (entries : List LogEntry) (leaderCommit : Nat) :
    Decidable (Gapless prevLogIndex entries leaderCommit) := by
  unfold Gapless
  infer_instance

instance (message : Message) : Decidable (Whole message) := by
  cases message <;> unfold Whole <;> infer_instance

instance (c : Cluster FileStorage) (act : FileAct) : Decidable (GaplessDelivery c act) := by
  unfold GaplessDelivery
  split <;> infer_instance

def secondEntry : LogEntry := ⟨1,2,.new .database [1]⟩

/-- Node one commits its first entry with node two, compacts it and proposes another. -/
def compactRun : List FileAct :=
  [.act (.campaign 1),.act (.collect 1),.act (.deliver 0),.act (.collect 2),.act (.deliver 2),.act (.collect 1),
    .act (.deliver 3),.act (.collect 2),.act (.deliver 5),.act (.takeCommitted 1),.compact 1 1,
    .act (.propose 1 (.new .database [1])),.act (.collect 1)]

theorem compacted_log_matching_second : ∃ shown c l n, Library.Run Cluster.fileStep GaplessDelivery
      (Cluster.start [1,2,3] trio (fun _ => ({} : FileStorage))) shown c ∧
    c.nodes[(1 : NodeId)]? = some l ∧ l.storage.baseIndex = 1 ∧ l.storage.entryAt 2 = some secondEntry ∧
    c.nodes[(2 : NodeId)]? = some n ∧ let n' := (n.step 1 (.appendEntries 1 1 1 [secondEntry] 1)).1
    n'.commitIndex = 1 ∧ ∀ e', n'.storage.entryAt 2 = some e' →
      secondEntry.term = e'.term ∧ secondEntry.command = e'.command := by
  obtain ⟨c,shown,run,l,leader,n,follower,packet,role,leads,entry,compacted,commits,answer⟩ :=
    @Library.Run.exists_of_admitted _ _ _ Cluster.fileStep GaplessDelivery _ compactRun
      (Cluster.start [1,2,3] trio (fun _ => ({} : FileStorage)))
      (fun c _ => ∃ l ∈ c.nodes[(1 : NodeId)]?, ∃ n ∈ c.nodes[(2 : NodeId)]?,
        c.sent[6]? = some ⟨1,2,.appendEntries 1 1 1 [secondEntry] 1⟩ ∧ l.role = .leader ∧ l.term = 1 ∧
        l.storage.entryAt 2 = some secondEntry ∧ l.storage.baseIndex = 1 ∧
        (n.step 1 (.appendEntries 1 1 1 [secondEntry] 1)).1.commitIndex = 1 ∧
        (n.step 1 (.appendEntries 1 1 1 [secondEntry] 1)).1.outbox =
          n.outbox ++ [⟨1,.appendEntriesResp 1 true 2⟩]) (by decide +kernel)
  refine ⟨shown,c,l,n,run,leader,compacted,entry,follower,commits,?_⟩
  intro e' stored
  exact (compacted_log_matching trio_shared run (.start c) leader role leads follower packet
    (by decide)).1 2 answer 2 secondEntry e' le_rfl entry stored

/-- Node one led term one alone; node two committed its own first two entries in term two and compacted one; its
heartbeat then reached node one. -/
def gapRun : List FileAct :=
  [.act (.campaign 1),.act (.collect 1),.act (.deliver 0),.act (.collect 2),.act (.deliver 2),
    .act (.propose 1 (.new .database [1])),
    .act (.campaign 2),.act (.collect 2),.act (.deliver 4),.act (.collect 3),.act (.deliver 5),
    .act (.propose 2 (.new .database [2])),.act (.collect 2),.act (.deliver 9),.act (.collect 3),
    .act (.deliver 10),.act (.takeCommitted 2),.compact 2 1,
    .act (.tick 2),.act (.tick 2),.act (.tick 2),.act (.collect 2),.act (.deliver 11),
    .act (.campaign 3),.act (.collect 3),.act (.deliver 13),.act (.collect 1),.act (.deliver 20),.act (.collect 3)]

/-- With a gap delivered, a follower commits and confirms an entry of its own at an index where the leaders have
another one. -/
theorem compacted_log_mismatch : ∃ shown c l n, Library.Run Cluster.fileStep (fun _ _ => True)
      (Cluster.start [1,2,3] trio (fun _ => ({} : FileStorage))) shown c ∧
    c.nodes[(3 : NodeId)]? = some l ∧ l.role = .leader ∧ l.term = 3 ∧ c.nodes[(1 : NodeId)]? = some n ∧
    c.sent[21]? = some ⟨3,1,.appendEntries 3 2 2 [⟨3,3,.noop⟩] 0⟩ ∧
    (n.step 3 (.appendEntries 3 2 2 [⟨3,3,.noop⟩] 0)).1.outbox =
      n.outbox ++ [⟨3,.appendEntriesResp 3 true 3⟩] ∧
    n.commitIndex = 2 ∧ l.storage.entryAt 1 = some ⟨2,1,.noop⟩ ∧
    (n.step 3 (.appendEntries 3 2 2 [⟨3,3,.noop⟩] 0)).1.storage.entryAt 1 = some ⟨1,1,.noop⟩ := by
  simp only [exists_and_left]
  exact Library.Run.exists_shown gapRun (by decide +kernel)

end AuraDb.Raft
