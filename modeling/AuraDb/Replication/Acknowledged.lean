import AuraDb.Replication.Peers

/-! What an acknowledged write means. The writer compares its index with the published commit index before it
looks at the published term. -/
namespace AuraDb.Replication
open Std Raft RaftStorage LawfulRaftStorage Library.Consensus

def Waiting.entry (codec : EnvelopeCodec) (w : Waiting) : LogEntry :=
  ⟨w.term,w.index,ReplicatedCommand.encode codec (.write w.batch)⟩

structure Proposed (codec : EnvelopeCodec) (g : History) (id : NodeId) (w : Waiting) : Prop where
  lead : g.lead w.term = some id
  positive : 0 < w.index
  entry : (g.leaderLog w.term)[w.index - 1]? = some (w.entry codec)

def Settled (codec : EnvelopeCodec) (voters : List NodeId) (g : History) (w : Waiting) : Prop :=
  ∃ t log, Library.Consensus.Committed voters g t log ∧ log[w.index - 1]? = some (w.entry codec)

variable {S : Type} {codec : EnvelopeCodec} {voters : List NodeId} {shown : List Reply} {n : RaftNode S} {g : History}
  {id : NodeId} {cut : Prop}

structure Honest (codec : EnvelopeCodec) (voters : List NodeId) (g : History) (shown : List Reply) (id : NodeId)
    (n : RaftNode S) (h : Peer) : Prop where
  within : n.lastApplied ≤ n.commitIndex
  published : h.commitState.commitIndex ≤ n.commitIndex
  chosen : ∃ log, Library.Consensus.Committed voters g h.commitState.term log ∧ log.length = h.commitState.commitIndex
  proposed : ∀ w, h.writer = some w → Proposed codec g id w
  acknowledged : ∀ ts w state, .acknowledged id ts w state ∈ shown → 0 < w.index ∧ w.index ≤ n.commitIndex ∧
    (state.term ≤ w.term → Settled codec voters g w)

section Growth
variable {g' : History} {replies : List Reply} {n' : RaftNode S} {h : Peer} {w : Waiting} {log : List LogEntry}

theorem Proposed.mono (proposed : Proposed codec g id w) (grows : Grows g g') : Proposed codec g' id w where
  lead := grows.lead _ _ proposed.lead
  positive := proposed.positive
  entry := by
    obtain ⟨rest,longer⟩ := grows.leaderLog w.term
    have entry := proposed.entry
    rw [← longer,List.getElem?_append_left (List.getElem?_eq_some_iff.mp entry).1]
    exact entry

theorem Settled.mono (settled : Settled codec voters g w) (grows : Grows g g') : Settled codec voters g' w := by
  obtain ⟨t,log,committed,entry⟩ := settled
  exact ⟨t,log,committed.mono grows le_rfl,entry⟩

/-- A commit published in the term of the proposal, or before it, is one of the log the proposal went into. -/
theorem Proposed.settled (proposed : Proposed codec g id w) (inv : Inv voters g) {t : Nat}
    (committed : Library.Consensus.Committed voters g t log) (upto : t ≤ w.term) (reached : w.index ≤ log.length) :
    Settled codec voters g w := by
  have positive := proposed.positive
  have inside := committed.leader inv upto (by simp [proposed.lead])
  obtain ⟨rest,whole⟩ := inside
  have entry := proposed.entry
  rw [← whole,List.getElem?_append_left (by omega)] at entry
  exact ⟨t,log,committed,entry⟩

theorem Honest.mono (honest : Honest codec voters g shown id n h) (grows : Grows g g')
    (forward : n.commitIndex ≤ n'.commitIndex) (within : n'.lastApplied ≤ n'.commitIndex)
    (quiet : ∀ ts w state, .acknowledged id ts w state ∉ replies) :
    Honest codec voters g' (shown ++ replies) id n' h where
  within := within
  published := honest.published.trans forward
  chosen := by
    obtain ⟨log,committed,length⟩ := honest.chosen
    exact ⟨log,committed.mono grows le_rfl,length⟩
  proposed w waits := (honest.proposed w waits).mono grows
  acknowledged ts w state seen := by
    have old := (List.mem_append.mp seen).resolve_right (quiet ts w state)
    obtain ⟨positive,reached,settled⟩ := honest.acknowledged ts w state old
    exact ⟨positive,reached.trans forward,fun upto => (settled upto).mono grows⟩

theorem Honest.stable : Stable (S := S) (Honest codec voters) := by
  intro g g' shown replies id other n h moved different theirs honest
  apply honest.mono moved.toGrows le_rfl honest.within
  intro ts w state seen
  exact different (theirs _ seen)

section
variable (honest : Honest codec voters g shown id n h)
include honest

theorem Honest.refuse (error : ReplicateError) :
    Honest codec voters g (shown ++ (h.refuse id n error).replies) id n { h with writer := none } :=
  { honest.mono (.refl g) le_rfl honest.within (by simp [Peer.refuse]) with proposed := by simp }

theorem Honest.waits (index : w.index = log.length + 1) (lead : g.lead w.term = some id)
    (own : g.leaderLog w.term = log ++ [⟨w.term,w.index,ReplicatedCommand.encode codec (.write w.batch)⟩]) :
    Honest codec voters g shown id n { h with writer := some w } := by
  refine { honest with proposed := ?_ }
  rintro w' ⟨⟩
  refine ⟨lead,by omega,?_⟩
  rw [own,index]
  simp [Waiting.entry,index]

theorem Honest.acknowledge (inv : Inv voters g)
    (waits : h.writer = some w) (reached : w.index ≤ h.commitState.commitIndex) (ts : Nat) (engine : Storage) :
    Honest codec voters g (shown ++ [.acknowledged id ts w h.commitState]) id n
      { h with engine := engine, writer := none } := by
  have proposed := honest.proposed w waits
  refine { honest with proposed := by simp, acknowledged := ?_ }
  intro ts' w' state seen
  rcases List.mem_append.mp seen with old | new
  · exact honest.acknowledged ts' w' state old
  · cases List.mem_singleton.mp new
    refine ⟨proposed.positive,reached.trans honest.published,fun upto => ?_⟩
    obtain ⟨log,committed,length⟩ := honest.chosen
    exact proposed.settled inv committed upto (by omega)

end

end Growth

section Kept
variable [RaftStorage S] [LawfulRaftStorage S] {h : Peer} {t : Turn S} {config : NodeId → RaftConfig}

theorem Honest.driven (honest : Honest codec voters g shown id n h) {g' : History}
    (moved : Moved voters cut g g' id n t.node) (quiet : t.replies = [])
    (applied : t.node.lastApplied = t.node.commitIndex) {pending : List LogEntry} (same : t.host = { h with
      commitState := ⟨t.node.commitIndex,t.node.term,t.node.isLeader⟩, pending := pending }) :
    Honest codec voters g' (shown ++ t.replies) id t.node t.host := by
  have kept : Honest codec voters g' (shown ++ t.replies) id t.node h :=
    honest.mono moved.moved.toGrows moved.forward (Nat.le_of_eq applied) (by simp [quiet])
  rw [same]
  refine ⟨kept.within,le_rfl,⟨(g'.log id).take t.node.commitIndex,?_,?_⟩,kept.proposed,kept.acknowledged⟩
  · rw [moved.tracked.term]
    exact moved.tracked.committed
  · exact List.length_take_of_le moved.tracked.bound

theorem honest_drive {event : DriveEvent} (heard : Heard voters cut g id event) :
    Kept voters cut (Honest codec voters) g shown id (drive event) n h := by
  intro tracked honest t taken
  obtain ⟨-,g',moved,quiet,applied,-,same⟩ := drive_spec tracked heard honest.within taken
  exact ⟨g',moved,honest.driven moved.toMoved quiet applied same⟩

theorem honest_applyNext : Kept voters cut (Honest codec voters) g shown id (applyNext codec) n h := by
  intro tracked honest t taken
  obtain ⟨moved,sameNode,quiet,entry,rest,-,-,same⟩ := applyNext_spec tracked taken
  have kept : Honest codec voters g (shown ++ t.replies) id t.node h :=
    honest.mono (.refl g) moved.forward (sameNode ▸ honest.within) (by simp [quiet])
  refine ⟨g,moved,?_⟩
  rw [same]
  exact { kept with }

theorem honest_propose {batch : Batch} :
    Kept voters cut (Honest codec voters) g shown id (propose codec id batch) n h := by
  intro tracked honest t taken
  obtain ⟨free,g',moved,applied,-,quiet,result⟩ := propose_spec tracked taken
  have kept : Honest codec voters g' (shown ++ t.replies) id t.node h := by
    apply honest.mono moved.moved.toGrows moved.forward _ quiet
    rw [applied]
    exact honest.within.trans moved.forward
  refine ⟨g',moved,?_⟩
  rcases result with same | ⟨w,-,same,rfl,index,lead,own⟩
  · rw [same]
    exact kept
  · rw [same]
    exact kept.waits index lead own

theorem honest_wake : Kept voters cut (Honest codec voters) g shown id (wake id) n h := by
  intro tracked honest t taken
  obtain ⟨moved,sameNode,result⟩ := wake_spec tracked taken
  refine ⟨g,moved,?_⟩
  rcases result with ⟨error,rfl⟩ | ⟨w,waits,reached,replied,same⟩
  · exact honest.refuse error
  · rw [same,replied,sameNode]
    exact honest.acknowledge tracked.inv waits reached _ _

theorem honest_timeout : Kept voters cut (Honest codec voters) g shown id (timeout id) n h := by
  intro tracked honest t taken
  obtain ⟨moved,error,rfl⟩ := timeout_spec tracked taken
  exact ⟨g,moved,honest.refuse error⟩

theorem honest_campaign : Kept voters cut (Honest codec voters) g shown id
    (fun n h => some { node := n.campaign, host := h }) n h := by
  rintro tracked honest t ⟨⟩
  obtain ⟨g',moved,applied,-⟩ := moved_campaign tracked
  refine ⟨g',moved.taken rfl (by simp),honest.mono moved.moved.toGrows moved.forward ?_ (by simp)⟩
  rw [applied]
  exact honest.within.trans moved.forward

theorem honest_restart (cleared : Raft.Tracked voters cut g id n → Cleared n.storage) :
    Kept voters cut (Honest codec voters) g shown id (restart codec) n h := by
  intro tracked honest t taken
  obtain ⟨moved,quiet,applied,-,same⟩ := restart_spec tracked (cleared tracked) taken
  have kept : Honest codec voters g (shown ++ t.replies) id t.node h :=
    honest.mono (.refl g) moved.forward (Nat.le_of_eq applied) (by simp [quiet])
  refine ⟨g,moved,?_⟩
  rw [same]
  exact ⟨kept.within,Nat.zero_le _,⟨[],.inl rfl,rfl⟩,by simp,kept.acknowledged⟩

theorem honest_join (shared : Shared voters config) (codec : EnvelopeCodec)
    (storage : NodeId → S) (fresh : ∀ id ∈ voters, Holds (storage id) [] ∧ hardState (storage id) = {})
    (data : NodeId → DataDirectory) :
    Along voters cut (Honest codec voters) State.initial [] (Peers.join voters config storage data) where
  held := .start shared storage fresh
  known := by simp
  peer id n h found found' := by
    rw [hosts_join] at found'
    have started : (Cluster.start voters config storage).nodes[id]? = some n := found
    rw [Cluster.nodes_start] at started
    split at found'
    · rename_i member
      rw [if_pos member] at started
      cases found'
      cases started
      exact ⟨le_rfl,Nat.zero_le _,⟨[],.inl rfl,rfl⟩,by simp,by simp⟩
    · cases found'

theorem honest_start (shared : Shared voters config) (codec : EnvelopeCodec)
    (storage : NodeId → S) (fresh : ∀ id ∈ voters, Holds (storage id) [] ∧ hardState (storage id) = {})
    (engine : NodeId → Storage) :
    Along voters cut (Honest codec voters) State.initial [] (Peers.start voters config storage engine) :=
  honest_join shared codec storage fresh (fun id => ⟨engine id,none⟩)

theorem honest_run {p p' : Peers S} (along : Along voters False (Honest codec voters) g shown p) {later : List Reply}
    (run : Library.Run (Peers.step codec) (fun _ _ => True) p later p') :
    ∃ g', Along voters False (Honest codec voters) g' (shown ++ later) p' := by
  induction run with
  | start => exact ⟨g,by simpa using along⟩
  | next before act _ taken ih =>
    obtain ⟨g',along'⟩ := ih
    rw [← List.append_assoc]
    obtain ⟨g2,-,along2⟩ := along'.step Honest.stable taken (fun _ _ _ found => along'.whole found)
      (fun _ _ _ _ heard => honest_drive heard) (fun _ _ _ => honest_applyNext)
      (fun _ _ _ _ _ _ _ => honest_propose) (fun _ _ _ _ _ => honest_wake) (fun _ _ _ => honest_timeout)
      (fun _ _ _ => honest_campaign) (fun _ _ _ => honest_restart cleared_of_uncompacted)
    exact ⟨g2,along2⟩

end Kept

variable [RaftStorage S] [LawfulRaftStorage S]

theorem Settled.entryAt {codec : EnvelopeCodec} {voters : List NodeId} {g : History} {c : Cluster S} {w : Waiting}
    (settled : Settled codec voters g w) (held : Simulated voters False g [] c) {j : NodeId} {n : RaftNode S}
    (found : c.nodes[j]? = some n) (positive : 0 < w.index) (reached : w.index ≤ n.commitIndex) :
    entryAt n.storage w.index = some (w.entry codec) := by
  obtain ⟨t,log,committed,entry⟩ := settled
  have mirrors := held.node j n found
  have bound := mirrors.bound
  have inside := (List.getElem?_eq_some_iff.mp entry).1
  have length := List.length_take_of_le bound
  rw [held.entryAt_log found positive,← List.getElem?_take_of_lt (show w.index - 1 < n.commitIndex by omega)]
  rcases committed.total held.inv mirrors.committed with ⟨rest,whole⟩ | ⟨rest,whole⟩
  · rw [← whole,List.getElem?_append_left inside]
    exact entry
  · rw [← whole,List.getElem?_append_left (by omega)] at entry
    exact entry

/-- An acknowledged batch is the entry committed at its index on every node that has committed so far, provided
the wait did not end with a state of a newer term. -/
theorem acknowledged_committed {voters : List NodeId} {config : NodeId → RaftConfig} (shared : Shared voters config)
    (codec : EnvelopeCodec) (storage : NodeId → S)
    (fresh : ∀ id ∈ voters, Holds (storage id) [] ∧ hardState (storage id) = {}) (engine : NodeId → Storage)
    {shown : List Reply} {p : Peers S}
    (run : Library.Run (Peers.step codec) (fun _ _ => True) (Peers.start voters config storage engine) shown p)
    {id : NodeId} {ts : Nat} {w : Waiting} {published : CommitState}
    (seen : .acknowledged id ts w published ∈ shown) (current : published.term ≤ w.term) :
    (∃ n, p.cluster.nodes[id]? = some n ∧ w.index ≤ n.commitIndex) ∧
    ∀ (j : NodeId) (n : RaftNode S), p.cluster.nodes[j]? = some n → w.index ≤ n.commitIndex →
      entryAt n.storage w.index =
        some ⟨w.term,w.index,ReplicatedCommand.encode codec (.write w.batch)⟩ := by
  obtain ⟨g,along⟩ := honest_run (honest_start shared codec storage fresh engine) run
  obtain ⟨n,h,found,found'⟩ := along.known _ seen
  obtain ⟨positive,reached,settled⟩ := (along.peer _ n h found found').acknowledged ts w published seen
  refine ⟨⟨n,found,reached⟩,?_⟩
  intro j m other far
  exact (settled current).entryAt along.held other positive far

def itemBatch (n : Nat) : Batch := ⟨n,[.put 0 ⟨n,"Item",[],1,n⟩]⟩

/-- Writes a batch as its number. -/
def numbering (number : Batch → Nat) (batch : Nat → Batch) : EnvelopeCodec where
  toVec
    | ⟨version,.noop⟩ => [UInt8.ofNat version]
    | ⟨version,.write batch⟩ => [UInt8.ofNat version,UInt8.ofNat (number batch)]
  fromSlice
    | [version] => some ⟨version.toNat,.noop⟩
    | [version,n] => some ⟨version.toNat,.write (batch n.toNat)⟩
    | _ => none

def itemCodec : EnvelopeCodec := numbering Batch.txnId itemBatch

def trioPeers : Peers FileStorage := .start [1,2,3] trio (fun _ => {}) (fun _ => ⟨∅,∅,0,0⟩)

def appliedRun : List PeerAct :=
  [.campaign 1,.tick 1,.deliver 0,.deliver 2,.propose 1 (itemBatch 1),.tick 1,.deliver 5,.deliver 7,
    .wake 1,.applyNext 1,.applyNext 1,.tick 1,.tick 1,.deliver 8,.applyNext 2,.applyNext 2]

theorem acknowledged_committed_first : ∃ shown p ts w,
    Library.Run (Peers.step itemCodec) (fun _ _ => True) trioPeers shown p ∧
    .acknowledged 1 ts w ⟨2,1,true⟩ ∈ shown ∧ w.index = 2 ∧ w.term = 1 ∧
    ∀ (j : NodeId) (n : RaftNode FileStorage), p.cluster.nodes[j]? = some n → w.index ≤ n.commitIndex →
      entryAt n.storage w.index =
        some ⟨w.term,w.index,ReplicatedCommand.encode itemCodec (.write w.batch)⟩ := by
  obtain ⟨p,shown,run,seen⟩ := Library.Run.exists_free (Peers.step itemCodec)
    [.campaign 1,.tick 1,.deliver 0,.deliver 2,.propose 1 (itemBatch 1),.tick 1,.deliver 5,.deliver 7,.wake 1] trioPeers
    (fun _ shown => .acknowledged 1 2 ⟨2,1,itemBatch 1⟩ ⟨2,1,true⟩ ∈ shown) (by decide +kernel)
  exact ⟨shown,p,2,_,run,seen,rfl,rfl,
    (acknowledged_committed trio_shared itemCodec _ (file_fresh _) _ run seen (Nat.le_refl 1)).2⟩

/-- Node one proposes in term one and is cut off; node two commits a batch of its own at the same index in term
two; one message then overwrites node one's entry and moves its commit index. -/
def overwrittenRun : List PeerAct :=
  [.campaign 1,.tick 1,.deliver 0,.deliver 2,.propose 1 (itemBatch 1),
    .campaign 2,.tick 2,.deliver 6,.deliver 7,.propose 2 (itemBatch 2),.tick 2,.deliver 11,.deliver 12,
    .wake 2,.applyNext 2,.applyNext 2,.tick 2,.tick 2,.deliver 13,.wake 1]

/-- The writer is told that its batch is committed, and another batch is. -/
theorem acknowledged_overwritten : ∃ shown p ts w n,
    Library.Run (Peers.step itemCodec) (fun _ _ => True) trioPeers shown p ∧
    .acknowledged 1 ts w ⟨2,2,false⟩ ∈ shown ∧ w.index = 2 ∧ w.term = 1 ∧ w.batch.txnId = 1 ∧
    p.cluster.nodes[(1 : NodeId)]? = some n ∧ n.commitIndex = 2 ∧
    entryAt n.storage 2 = some ⟨2,2,ReplicatedCommand.encode itemCodec (.write (itemBatch 2))⟩ := by
  obtain ⟨p,shown,run,seen,n,found,commit,entry⟩ := Library.Run.exists_free (Peers.step itemCodec)
    overwrittenRun trioPeers (fun p shown => .acknowledged 1 2 ⟨2,1,itemBatch 1⟩ ⟨2,2,false⟩ ∈ shown ∧
      ∃ n ∈ p.cluster.nodes[(1 : NodeId)]?, n.commitIndex = 2 ∧ entryAt n.storage 2 =
        some ⟨2,2,ReplicatedCommand.encode itemCodec (.write (itemBatch 2))⟩) (by decide +kernel)
  exact ⟨shown,p,2,_,n,run,seen,rfl,rfl,rfl,found,commit,entry⟩

end AuraDb.Replication
