import AuraDb.Replication.Acknowledged

/-! Commit timestamps across replicas. A peer counts them from the base it fixed when it first joined, so the
timestamps of an entry agree where the bases do. -/
namespace AuraDb.Replication
open Std Raft RaftStorage LawfulRaftStorage Library.Consensus Library.VersionChain
variable {codec : EnvelopeCodec}

def Peer.commitTs (h : Peer) (e : LogEntry) : Nat := h.commitTsBase + e.index

section Versions
variable {engine : Storage} {ts base : Nat} {c : String} {i : RecordId} {v : Version Record}

theorem mem_chainOf_applyCommand {command : WriteCommand}
    (inside : v ∈ (applyCommand engine command ts).chainOf c i) : v ∈ engine.chainOf c i ∨ v.commitTs = ts := by
  cases command with
  | noop => exact .inl inside
  | schema command => exact command.elim
  | write batch =>
    simp only [applyCommand,Storage.applyCommittedBatch] at inside
    split at inside
    · exact .inl inside
    · split at inside
      · exact .inl inside
      · exact engine.mem_chainOf_applied ts batch c i inside

theorem mem_chainOf_applyEntry {e : LogEntry} (inside : v ∈ (applyEntry codec base engine e).chainOf c i) :
    v ∈ engine.chainOf c i ∨ v.commitTs = base + e.index := by
  unfold applyEntry at inside
  split at inside
  · exact mem_chainOf_applyCommand inside
  · exact .inl inside

end Versions

variable {S : Type} {data : NodeId → DataDirectory} {n : RaftNode S} {id : NodeId}

/-- Every version of the engine was there before, or is dated by the base and the index of
a committed entry. -/
structure Dated (data : NodeId → DataDirectory) (id : NodeId) (n : RaftNode S) (h : Peer) : Prop where
  base : h.commitTsBase = loadOrInitCommitBase (data id)
  pending : ∀ e ∈ h.pending, 0 < e.index ∧ e.index ≤ n.commitIndex
  dated : ∀ c i v, v ∈ h.engine.chainOf c i → v ∈ (data id).engine.chainOf c i ∨
    ∃ k, 0 < k ∧ k ≤ n.commitIndex ∧ v.commitTs = h.commitTsBase + k

section Growth
variable {n' : RaftNode S} {h : Peer}

theorem Dated.mono (dated : Dated data id n h) (forward : n.commitIndex ≤ n'.commitIndex) : Dated data id n' h where
  base := dated.base
  pending e inside := by
    obtain ⟨positive,le⟩ := dated.pending e inside
    exact ⟨positive,le.trans forward⟩
  dated c i v inside := by
    refine (dated.dated c i v inside).imp_right ?_
    rintro ⟨k,positive,le,same⟩
    exact ⟨k,positive,le.trans forward,same⟩

theorem Dated.refuse (dated : Dated data id n h) : Dated data id n { h with writer := none } :=
  { dated with }

theorem Dated.applied (dated : Dated data id n h) {engine : Storage} {k : Nat}
    (positive : 0 < k) (reached : k ≤ n.commitIndex)
    (added : ∀ c i v, v ∈ engine.chainOf c i → v ∈ h.engine.chainOf c i ∨ v.commitTs = h.commitTsBase + k) :
    ∀ c i v, v ∈ engine.chainOf c i → v ∈ (data id).engine.chainOf c i ∨
      ∃ k, 0 < k ∧ k ≤ n.commitIndex ∧ v.commitTs = h.commitTsBase + k := by
  intro c i v inside
  rcases added c i v inside with old | new
  · exact dated.dated c i v old
  · exact .inr ⟨k,positive,reached,new⟩

end Growth

section Kept
variable [RaftStorage S] [LawfulRaftStorage S] {voters : List NodeId} {g : History}
  {shown : List Reply} {h : Peer} {t : Turn S}

section
variable (tracked : Raft.Tracked voters False g id n)
include tracked

theorem index_of_take {k : Nat} {e : LogEntry} (inside : e ∈ (g.log id).take k) : 0 < e.index ∧ e.index ≤ k := by
  obtain ⟨i,found⟩ := List.mem_iff_getElem?.mp inside
  rw [List.getElem?_take] at found
  split at found
  · have position := LawfulRaftStorage.numbered tracked.holds i e found
    omega
  · cases found

theorem dated_drive {event : DriveEvent} (heard : Heard voters False g id event)
    (within : n.lastApplied ≤ n.commitIndex) (dated : Dated data id n h) (taken : drive event n h = some t) :
    Dated data id t.node t.host := by
  obtain ⟨-,g',moved,-,-,-,same⟩ := drive_spec tracked heard within taken
  have kept := dated.mono moved.forward
  rw [same]
  exact ⟨kept.base,fun e inside => index_of_take moved.tracked (List.mem_of_mem_drop inside),kept.dated⟩

theorem dated_applyNext (dated : Dated data id n h)
    (taken : applyNext codec n h = some t) : Dated data id t.node t.host := by
  obtain ⟨-,sameNode,-,entry,rest,queue,-,same⟩ := applyNext_spec tracked taken
  have first := dated.pending entry (by simp [queue])
  rw [same,sameNode]
  refine ⟨dated.base,fun e inside => dated.pending e (by simp [queue,inside]),?_⟩
  exact dated.applied first.1 first.2 (fun c i v inside => mem_chainOf_applyEntry inside)

theorem dated_propose {batch : Batch} (dated : Dated data id n h)
    (taken : propose codec id batch n h = some t) : Dated data id t.node t.host := by
  obtain ⟨-,g',moved,-,-,-,result⟩ := propose_spec tracked taken
  have kept := dated.mono moved.forward
  rcases result with same | ⟨w,-,same,-⟩
  · rw [same]
    exact kept
  · rw [same]
    exact { kept with }

theorem dated_wake (honest : Honest codec voters g shown id n h) (dated : Dated data id n h)
    (taken : wake id n h = some t) : Dated data id t.node t.host := by
  obtain ⟨-,sameNode,result⟩ := wake_spec tracked taken
  rcases result with ⟨error,rfl⟩ | ⟨w,waits,reached,-,same⟩
  · exact dated.refuse
  · have positive := (honest.proposed w waits).positive
    rw [same,sameNode]
    exact ⟨dated.base,dated.pending,dated.applied positive (reached.trans honest.published)
      (fun c i v inside => mem_chainOf_applyCommand inside)⟩

theorem dated_restart (dated : Dated data id n h)
    (taken : restart codec n h = some t) : Dated data id t.node t.host := by
  obtain ⟨moved,-,-,-,same⟩ := restart_spec tracked (cleared_of_uncompacted tracked) taken
  have kept := dated.mono moved.forward
  rw [same]
  exact ⟨kept.base,fun e inside => index_of_take moved.tracked (List.mem_of_mem_drop inside),kept.dated⟩

end

theorem dated_run {config : NodeId → RaftConfig} (shared : Shared voters config) (codec : EnvelopeCodec)
    (storage : NodeId → S) (fresh : ∀ id ∈ voters, Holds (storage id) [] ∧ hardState (storage id) = {})
    (data : NodeId → DataDirectory) {p : Peers S}
    (run : Library.Run (Peers.step codec) (fun _ _ => True) (Peers.join voters config storage data) shown p) :
    ∃ g, Along voters False (fun g shown id n h => Honest codec voters g shown id n h ∧ Dated data id n h) g shown p := by
  induction run with
  | start =>
    have honest : Along voters False (Honest codec voters) _ [] _ := honest_join shared codec storage fresh data
    refine ⟨_,honest.held,honest.known,fun id n h found found' => ⟨honest.peer id n h found found',?_⟩⟩
    rw [hosts_join] at found'
    split at found'
    · cases found'
      exact ⟨rfl,by simp,fun c i v inside => .inl inside⟩
    · cases found'
  | next before act _ taken ih =>
    obtain ⟨g,along⟩ := ih
    obtain ⟨g',-,along'⟩ := along.step (Honest.stable.and (fun _ _ _ _ _ _ dated => dated)) taken
      (fun _ _ _ found => along.whole found)
      (fun _ _ _ _ heard => (honest_drive heard).and (fun tracked honest dated _ t _ taken =>
        dated_drive tracked heard honest.within dated taken))
      (fun _ _ _ => honest_applyNext.and (fun tracked _ dated _ t _ taken => dated_applyNext tracked dated taken))
      (fun _ _ _ _ _ _ _ => honest_propose.and (fun tracked _ dated _ t _ taken => dated_propose tracked dated taken))
      (fun _ _ _ _ _ => honest_wake.and (fun tracked honest dated _ t _ taken => dated_wake tracked honest dated taken))
      (fun _ _ _ => honest_timeout.and (fun tracked _ dated _ t _ taken => by
        obtain ⟨-,error,rfl⟩ := timeout_spec tracked taken
        exact dated.refuse))
      (fun _ _ _ => honest_campaign.and (fun tracked _ dated _ t _ taken => by
        cases taken
        obtain ⟨g',moved,-⟩ := moved_campaign tracked
        exact dated.mono moved.forward))
      (fun _ _ _ => (honest_restart cleared_of_uncompacted).and (fun tracked _ dated _ t _ taken =>
        dated_restart tracked dated taken))
    exact ⟨g',along'⟩

end Kept

variable [RaftStorage S] [LawfulRaftStorage S]

/-- Where all nodes fix the same base, none below its own watermark: replicas hold the same entry at a committed
index and date it alike, and every version a replica has gained is dated by such an entry. -/
theorem identical_commit_timestamps {voters : List NodeId} {config : NodeId → RaftConfig}
    (shared : Shared voters config) (codec : EnvelopeCodec) (storage : NodeId → S)
    (fresh : ∀ id ∈ voters, Holds (storage id) [] ∧ hardState (storage id) = {}) (data : NodeId → DataDirectory)
    (wellFormed : ∀ id ∈ voters, (data id).engine.WellFormed) {base : Nat}
    (pinned : ∀ id ∈ voters, loadOrInitCommitBase (data id) = base ∧ (data id).engine.commitWatermark ≤ base)
    {shown : List Reply} {p : Peers S}
    (run : Library.Run (Peers.step codec) (fun _ _ => True) (Peers.join voters config storage data) shown p)
    {id : NodeId} {n : RaftNode S} {h : Peer} (found : p.cluster.nodes[id]? = some n)
    (found' : p.hosts[id]? = some h) :
    (∀ k e, 0 < k → k ≤ n.commitIndex → entryAt n.storage k = some e →
      (∀ (j : NodeId) (m : RaftNode S) (other : Peer), p.cluster.nodes[j]? = some m → p.hosts[j]? = some other →
        k ≤ m.commitIndex → entryAt m.storage k = some e ∧ other.commitTs e = h.commitTs e) ∧
      (data id).engine.commitWatermark < h.commitTs e ∧
      ∀ c i, ∀ v ∈ (data id).engine.chainOf c i, v.commitTs < h.commitTs e) ∧
    ∀ c i, ∀ v ∈ h.engine.chainOf c i, v ∈ (data id).engine.chainOf c i ∨
      ∃ k e, k ≤ n.commitIndex ∧ entryAt n.storage k = some e ∧ v.commitTs = h.commitTs e := by
  obtain ⟨g,along⟩ := dated_run shared codec storage fresh data run
  obtain ⟨-,dated⟩ := along.peer id n h found found'
  have tracked := along.held.tracked found
  have bound := tracked.bound
  obtain ⟨own,floor⟩ := pinned id tracked.member
  have numbered := LawfulRaftStorage.numbered tracked.holds
  refine ⟨?_,?_⟩
  · intro k e positive reached at'
    have slot := at'
    rw [along.held.entryAt_log found positive] at slot
    have index := numbered (k - 1) e slot
    have above : (data id).engine.commitWatermark < h.commitTs e := by
      rw [Peer.commitTs,dated.base,own]
      omega
    refine ⟨?_,above,?_⟩
    · intro j m other foundJ foundJ' reached'
      obtain ⟨-,dated'⟩ := along.peer j m other foundJ foundJ'
      have tracked' := along.held.tracked foundJ
      refine ⟨?_,?_⟩
      · rw [along.held.entryAt_log foundJ positive,← slot]
        exact Simulated.getElem?_of_take (along.held.committed_agree foundJ found reached' reached) (by omega)
      · rw [Peer.commitTs,Peer.commitTs,dated.base,dated'.base,own,(pinned j tracked'.member).1]
    · intro c i v inside
      exact Nat.lt_of_le_of_lt ((wellFormed id tracked.member).bounded c i v inside) above
  · intro c i v inside
    rcases dated.dated c i v inside with old | ⟨k,positive,reached,same⟩
    · exact .inl old
    · have within : k - 1 < (g.log id).length := by omega
      have slot : (g.log id)[k - 1]? = some (g.log id)[k - 1] := List.getElem?_eq_getElem within
      refine .inr ⟨k,_,reached,(along.held.entryAt_log found positive).trans slot,?_⟩
      have index := numbered (k - 1) _ slot
      rw [same,Peer.commitTs,index]
      omega

def itemEntry : LogEntry := ⟨1,2,ReplicatedCommand.encode itemCodec (.write (itemBatch 1))⟩

abbrev DatedAt (id : NodeId) (ts : Nat) (p : Peers FileStorage) : Prop :=
  ∃ n ∈ p.cluster.nodes[id]?, ∃ h ∈ p.hosts[id]?, n.commitIndex = 2 ∧ entryAt n.storage 2 = some itemEntry ∧
    h.commitTs itemEntry = ts ∧ h.engine.latestCommitTs "Item" 1 = some ts

def emptyData : NodeId → DataDirectory := fun _ => ⟨⟨∅,∅,0,0⟩,none⟩

theorem identical_commit_timestamps_item : ∃ shown p n h m other, Library.Run (Peers.step itemCodec) (fun _ _ => True)
      (Peers.join [1,2,3] trio (fun _ => ({} : FileStorage)) emptyData) shown p ∧
    p.cluster.nodes[(1 : NodeId)]? = some n ∧ p.hosts[(1 : NodeId)]? = some h ∧
    p.cluster.nodes[(2 : NodeId)]? = some m ∧ p.hosts[(2 : NodeId)]? = some other ∧
    entryAt n.storage 2 = some itemEntry ∧ h.commitTs itemEntry = 2 ∧
    entryAt m.storage 2 = some itemEntry ∧ other.commitTs itemEntry = h.commitTs itemEntry := by
  obtain ⟨p,shown,run,⟨n,first,h,first',commit,entry,ts,-⟩,m,second,other,second',commit',-⟩ :=
    Library.Run.exists_free (Peers.step itemCodec) appliedRun
      (Peers.join [1,2,3] trio (fun _ => ({} : FileStorage)) emptyData) (fun p _ => DatedAt 1 2 p ∧ DatedAt 2 2 p)
      (by decide +kernel)
  have pinned : ∀ id ∈ [1,2,3], loadOrInitCommitBase (emptyData id) = 0 ∧
      (emptyData id).engine.commitWatermark ≤ 0 := fun _ _ => ⟨rfl,le_rfl⟩
  have dated := identical_commit_timestamps trio_shared itemCodec _ (file_fresh _) emptyData
    (fun _ _ => Storage.wellFormed_empty) pinned run first first'
  have agreed := (dated.1 2 itemEntry (by decide) (Nat.le_of_eq commit.symm) entry).1 2 m other second second'
    (Nat.le_of_eq commit'.symm)
  exact ⟨shown,p,n,h,m,other,run,first,first',second,second',entry,ts,agreed⟩

def unevenData : NodeId → DataDirectory := fun id => ⟨⟨∅,∅,0,if id = 1 then 5 else 0⟩,none⟩

/-- One committed entry is dated 7 on one replica and 2 on another. -/
theorem commit_timestamps_differ : ∃ shown p n h m other, Library.Run (Peers.step itemCodec) (fun _ _ => True)
      (Peers.join [1,2,3] trio (fun _ => ({} : FileStorage)) unevenData) shown p ∧
    p.cluster.nodes[(1 : NodeId)]? = some n ∧ p.hosts[(1 : NodeId)]? = some h ∧
    p.cluster.nodes[(2 : NodeId)]? = some m ∧ p.hosts[(2 : NodeId)]? = some other ∧
    n.commitIndex = 2 ∧ m.commitIndex = 2 ∧ entryAt n.storage 2 = some itemEntry ∧
    entryAt m.storage 2 = some itemEntry ∧ h.commitTs itemEntry = 7 ∧ other.commitTs itemEntry = 2 ∧
    h.engine.latestCommitTs "Item" 1 = some 7 ∧ other.engine.latestCommitTs "Item" 1 = some 2 := by
  simp only [exists_and_left]
  exact Library.Run.exists_shown appliedRun (by decide +kernel)

end AuraDb.Replication
