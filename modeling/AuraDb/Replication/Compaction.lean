import AuraDb.Raft.Compaction
import AuraDb.Replication.Convergence

/-! Compaction of the log of a running peer up to its applied index, which moves when the driver takes the
committed entries and not when the engine has them. -/
namespace AuraDb.Replication
open Std Raft RaftStorage LawfulRaftStorage Library.Consensus
variable {codec : EnvelopeCodec} {id : NodeId}

inductive CompactAct where
  | peer (act : PeerAct)
  | compactLog (id : NodeId)

/-- What a run shows: the replies to writers, and the entries a node discarded. -/
inductive LogEvent where
  | replied (reply : Reply)
  | discarded (id : NodeId) (e : LogEntry)
  deriving DecidableEq, Repr

namespace Peers

def compactLog (p : Peers FileStorage) (id : NodeId) : Option (Peers FileStorage × List LogEvent) :=
  match p.cluster.nodes[id]? with
  | none => none
  | some n =>
    let applied := n.lastApplied
    let upTo := n.storage.compactablePrefix applied
    let s := (n.storage.compact upTo applied).1
    some ({ p with cluster := { p.cluster with nodes := p.cluster.nodes.insert id { n with storage := s } } },
      (n.storage.entries.filter (fun e => e.index ≤ s.baseIndex)).map (.discarded id))

def compactStep (codec : EnvelopeCodec) (p : Peers FileStorage) : CompactAct → Option (Peers FileStorage × List LogEvent)
  | .peer act => (p.step codec act).map (fun q => (q.1,q.2.map .replied))
  | .compactLog id => p.compactLog id

end Peers

/-- A node compacts its log when the driver has nothing left to apply, and no message with a gap is delivered.
-/
def Unhurried (codec : EnvelopeCodec) (p : Peers FileStorage) : CompactAct → Prop
  | .peer act => Orderly codec p act ∧ ∀ position packet, act = .deliver position →
      p.cluster.sent[position]? = some packet → Whole packet.message
  | .compactLog id => ∀ h, p.hosts[id]? = some h → h.pending = []

section Stored
variable {base : Nat} {init : Storage} {log : List LogEntry}

def Stored (codec : EnvelopeCodec) (base : Nat) (engine : Storage) (e : LogEntry) : Prop :=
  ∀ batch, ReplicatedCommand.decode codec e.command = some (.write batch) → ∀ c i value,
    lastWrite batch.ops c i = some value → ⟨base + e.index,value⟩ ∈ engine.chainOf c i

theorem wellFormed_replayEntry {engine : Storage} (ok : engine.WellFormed) {e : LogEntry}
    (newer : engine.commitWatermark < base + e.index) : (replayEntry codec base engine e).WellFormed ∧
      ∀ c i, ∀ v ∈ engine.chainOf c i, v ∈ (replayEntry codec base engine e).chainOf c i := by
  unfold replayEntry
  split
  · rename_i batch read
    split
    · refine ⟨⟨ok.ascending,?_,ok.keyed⟩,fun _ _ _ inside => inside⟩
      intro c i v inside
      exact (ok.bounded c i v inside).trans newer.le
    · refine ⟨ok.applied _ batch newer,?_⟩
      intro c i v inside
      rw [Storage.chainOf_applied ok _ batch newer]
      split
      · exact inside
      · exact List.mem_append_left _ inside
  · exact ⟨ok,fun _ _ _ inside => inside⟩

theorem stored_replayEntry {engine : Storage} (ok : engine.WellFormed) {e : LogEntry}
    (newer : engine.commitWatermark < base + e.index) : Stored codec base (replayEntry codec base engine e) e := by
  intro batch read c i value last
  simp only [replayEntry,read]
  split
  · rename_i empty
    rw [List.isEmpty_iff.mp empty] at last
    simp [lastWrite] at last
  · rw [Storage.chainOf_applied ok _ batch newer,last]
    exact List.mem_append_right _ (List.mem_singleton_self _)

theorem stored_replay (codec : EnvelopeCodec) (ok : init.WellFormed) (start : init.commitWatermark ≤ base)
    (numbered : Raft.Numbered log) (k : Nat) : (replay codec base (log.take k) init).WellFormed ∧
      (replay codec base (log.take k) init).commitWatermark ≤ base + k ∧
      ∀ e ∈ log.take k, Stored codec base (replay codec base (log.take k) init) e := by
  induction k with
  | zero => exact ⟨ok,start,by simp⟩
  | succ k ih =>
    obtain ⟨sound,low,stored⟩ := ih
    cases found : log[k]? with
    | none =>
      have short : log.take (k + 1) = log.take k := by simp [List.take_add_one,found]
      rw [short]
      exact ⟨sound,by omega,stored⟩
    | some e =>
      have index : e.index = k + 1 := numbered k e found
      have longer : log.take (k + 1) = log.take k ++ [e] := by simp [List.take_add_one,found]
      have newer : (replay codec base (log.take k) init).commitWatermark < base + e.index := by omega
      obtain ⟨sound',kept⟩ := @wellFormed_replayEntry codec base _ sound e newer
      rw [longer,replay_append]
      refine ⟨sound',?_,?_⟩
      · by_cases write : isWrite codec e
        · exact Nat.le_of_eq ((commitWatermark_replayEntry write).trans (by rw [index]))
        · change (replayEntry codec base _ e).commitWatermark ≤ _
          rw [replayEntry_other write]
          omega
      · intro x inside
        rcases List.mem_append.mp inside with old | new
        · intro batch read c i value last
          exact kept c i _ (stored x old batch read c i value last)
        · rw [List.mem_singleton.mp new]
          exact stored_replayEntry sound newer

end Stored

def Later (h h' : Peer) : Prop :=
  h'.commitTsBase = h.commitTsBase ∧ h.engine.commitWatermark ≤ h'.engine.commitWatermark

section Later
variable {S : Type} {n : RaftNode S} {h : Peer} {t : Turn S}

theorem later_applyNext (taken : applyNext codec n h = some t) : Later h t.host := by
  unfold applyNext at taken
  split at taken
  · cases taken
  split at taken
  · split at taken
    · cases taken
    · cases taken
      exact ⟨rfl,(Storage.watermark_applyCommittedBatch ..).1⟩
  · cases taken
    exact ⟨rfl,le_rfl⟩

theorem later_wake (taken : wake id n h = some t) : Later h t.host := by
  unfold wake at taken
  split at taken
  · cases taken
  split at taken
  · cases taken
    exact ⟨rfl,(Storage.watermark_applyCommittedBatch ..).1⟩
  split at taken
  · cases taken
    exact ⟨rfl,le_rfl⟩
  · cases taken

theorem later_timeout (taken : timeout id n h = some t) : Later h t.host := by
  unfold timeout at taken
  split at taken
  · cases taken
  split at taken
  · cases taken
  · cases taken
    exact ⟨rfl,le_rfl⟩

variable [RaftStorage S]

theorem later_drive {event : DriveEvent} (taken : drive event n h = some t) : Later h t.host := by
  unfold drive at taken
  split at taken
  · cases taken
    exact ⟨rfl,le_rfl⟩
  · cases taken

theorem later_propose {batch : Batch} (taken : propose codec id batch n h = some t) : Later h t.host := by
  unfold propose at taken
  split at taken
  · cases taken
  split at taken
  · cases taken
    exact ⟨rfl,le_rfl⟩
  split at taken
  · cases taken
    exact ⟨rfl,le_rfl⟩
  · cases taken
    exact ⟨rfl,le_rfl⟩

theorem later_restart (taken : restart codec n h = some t) : Later h t.host := by
  unfold restart at taken
  simp only at taken
  split at taken
  · cases taken
    exact ⟨rfl,le_rfl⟩
  · cases taken

end Later

/-- The discarded entries are committed, and the engine covers the writes among them. -/
def Relinquished (codec : EnvelopeCodec) (voters : List NodeId) (events : List LogEvent) (g : History) (id : NodeId)
    (_ : RaftNode FileStorage) (h : Peer) : Prop :=
  ∀ e, .discarded id e ∈ events →
    (∃ t log, Library.Consensus.Committed voters g t log ∧ 0 < e.index ∧ log[e.index - 1]? = some e) ∧
    (isWrite codec e → h.commitTsBase + e.index ≤ h.engine.commitWatermark)

section Runs
variable {voters : List NodeId} {init : NodeId → Storage} {g g' : History}
  {shown : List Reply} {events : List LogEvent} {n n' : RaftNode FileStorage} {h h' : Peer}
  {p p' : Peers FileStorage}

theorem Relinquished.mono (done : Relinquished codec voters events g id n h) (grows : Grows g g')
    (later : Later h h') : Relinquished codec voters events g' id n' h' := by
  intro e discarded
  obtain ⟨⟨t,log,committed,inside⟩,covered⟩ := done e discarded
  refine ⟨⟨t,log,committed.mono grows le_rfl,inside⟩,?_⟩
  intro write
  rw [later.1]
  exact (covered write).trans later.2

def Compacting (codec : EnvelopeCodec) (voters : List NodeId) (init : NodeId → Storage) (events : List LogEvent)
    (g : History) (shown : List Reply) (id : NodeId) (n : RaftNode FileStorage) (h : Peer) : Prop :=
  Faithful codec voters init g shown id n h ∧ Relinquished codec voters events g id n h

section
variable (along : Along voters True (Compacting codec voters init events) g shown p)
include along

theorem compacting_step {act : PeerAct} {replies : List Reply} (unhurried : Unhurried codec p (.peer act))
    (taken : p.step codec act = some (p',replies)) :
    ∃ g', Grows g g' ∧ Along voters True (Compacting codec voters init events) g' (shown ++ replies) p' := by
  obtain ⟨orderly,whole⟩ := unhurried
  have stable : Stable (Compacting codec voters init events) :=
    Faithful.stable.and (fun _ _ _ _ _ grows done => done.mono grows ⟨rfl,le_rfl⟩)
  refine along.step stable taken whole
    (fun _ _ _ _ heard => (faithful_drive heard).and (fun _ _ done _ _ moved taken =>
      done.mono moved.toGrows (later_drive taken)))
    (fun _ _ _ => faithful_applyNext.and (fun _ _ done _ _ moved taken =>
      done.mono moved.toGrows (later_applyNext taken))) ?_ ?_
    (fun _ _ _ => faithful_timeout.and (fun _ _ done _ _ moved taken =>
      done.mono moved.toGrows (later_timeout taken)))
    (fun _ _ _ => faithful_campaign.and (fun _ _ done _ t moved taken => by
      cases taken
      exact done.mono moved.toGrows ⟨rfl,le_rfl⟩))
    (fun _ _ _ => (faithful_restart (fun _ => cleared_file _)).and (fun _ _ done _ _ moved taken =>
      done.mono moved.toGrows (later_restart taken)))
  · rintro id n h batch rfl found found'
    exact (faithful_propose orderly.1 (orderly.2 n h found found')).and (fun _ _ done _ _ moved taken =>
      done.mono moved.toGrows (later_propose taken))
  · rintro id n h rfl found
    exact (faithful_wake (fun w => orderly h w found)).and (fun _ _ done _ _ moved taken =>
      done.mono moved.toGrows (later_wake taken))

theorem compacting_compactLog {now : List LogEvent}
    (unhurried : Unhurried codec p (.compactLog id)) (taken : p.compactLog id = some (p',now)) :
    Along voters True (Compacting codec voters init (events ++ now)) g shown p' := by
  unfold Peers.compactLog at taken
  split at taken
  · cases taken
  rename_i n found
  cases taken
  have tracked := along.held.tracked found
  have held := along.held.compact found (n.storage.compactablePrefix n.lastApplied)
  have compacted := held.node id { n with
    storage := (n.storage.compact (n.storage.compactablePrefix n.lastApplied) n.lastApplied).1 } (by simp)
  have low := compacted.applied.1
  have inCommitted := compacted.base
  refine ⟨held,?_,?_⟩
  · intro r seen
    obtain ⟨m,k,first,second⟩ := along.known r seen
    by_cases same : id = r.peer
    · exact ⟨_,k,by rw [Library.TreeMap.getElem?_insert_eq,if_pos same],second⟩
    · exact ⟨m,k,by simpa [Library.TreeMap.getElem?_insert_eq,same] using first,second⟩
  intro other m k first second
  rw [Library.TreeMap.getElem?_insert_eq] at first
  by_cases same : id = other
  · subst same
    rw [if_pos rfl] at first
    cases first
    obtain ⟨faithful,done⟩ := along.peer id n k found second
    have idle := unhurried k second
    have covered := faithful.idle tracked idle
    refine ⟨{ faithful with pending := ⟨n.lastApplied,low,le_rfl,?_,covered⟩ },?_⟩
    · rw [idle,List.drop_eq_nil_of_le (List.length_take_le ..)]
    intro e discarded
    rcases List.mem_append.mp discarded with old | new
    · exact done e old
    · obtain ⟨x,kept,equal⟩ := List.mem_map.mp new
      cases equal
      obtain ⟨inside,below⟩ := List.mem_filter.mp kept
      have entries : n.storage.entries = (g.log id).drop n.storage.baseIndex := tracked.holds.entries
      rw [entries] at inside
      obtain ⟨i,at'⟩ := List.mem_iff_getElem?.mp (List.mem_of_mem_drop inside)
      have position := LawfulRaftStorage.numbered tracked.holds i e at'
      have upto : e.index ≤ LawfulRaftStorage.base (n.storage.compact
        (n.storage.compactablePrefix n.lastApplied) n.lastApplied).1 := of_decide_eq_true below
      have reached := upto.trans low
      have committed := upto.trans inCommitted
      simp only at reached committed
      refine ⟨⟨_,_,tracked.committed,by omega,?_⟩,covered e ?_⟩
      · rw [position,Nat.add_sub_cancel,List.getElem?_take_of_lt (by omega)]
        exact at'
      · exact List.mem_iff_getElem?.mpr ⟨i,by rw [List.getElem?_take_of_lt (by omega)]; exact at'⟩
  · rw [if_neg same] at first
    obtain ⟨faithful,done⟩ := along.peer other m k first second
    refine ⟨faithful,?_⟩
    intro e discarded
    rcases List.mem_append.mp discarded with old | new
    · exact done e old
    · obtain ⟨x,-,equal⟩ := List.mem_map.mp new
      cases equal
      exact absurd rfl same

end

theorem compacting_run {config : NodeId → RaftConfig} (shared : Shared voters config) (codec : EnvelopeCodec)
    (engine : NodeId → Storage) (run : Library.Run (Peers.compactStep codec) (Unhurried codec)
      (Peers.start voters config (fun _ => ({} : FileStorage)) engine) events p) :
    ∃ g shown, Along voters True (Compacting codec voters engine events) g shown p := by
  induction run with
  | start =>
    have faithful : Along voters True (Faithful codec voters engine) _ [] _ :=
      faithful_start shared codec _ (file_fresh voters) engine
    exact ⟨_,_,faithful.held,faithful.known,fun id n h found found' =>
      ⟨faithful.peer id n h found found',by simp [Relinquished]⟩⟩
  | next before act unhurried taken ih =>
    obtain ⟨g,shown,along⟩ := ih
    cases act with
    | compactLog id => exact ⟨g,shown,compacting_compactLog along unhurried taken⟩
    | peer act =>
      obtain ⟨⟨p,replies⟩,done,same⟩ := Option.map_eq_some_iff.mp taken
      cases same
      obtain ⟨g',-,along'⟩ := compacting_step along unhurried done
      refine ⟨g',_,along'.held,along'.known,?_⟩
      intro id n h found found'
      obtain ⟨faithful,covered⟩ := along'.peer id n h found found'
      refine ⟨faithful,?_⟩
      intro e discarded
      rcases List.mem_append.mp discarded with old | new
      · exact covered e old
      · simp at new

end Runs

/-- As long as a node compacts only when the driver has applied all it took, what it has discarded is in its
engine. -/
theorem discarded_writes_stored {voters : List NodeId} {config : NodeId → RaftConfig} (shared : Shared voters config)
    (codec : EnvelopeCodec) (engine : NodeId → Storage) (wellFormed : ∀ id ∈ voters, (engine id).WellFormed)
    {events : List LogEvent} {p : Peers FileStorage}
    (run : Library.Run (Peers.compactStep codec) (Unhurried codec)
      (Peers.start voters config (fun _ => ({} : FileStorage)) engine) events p)
    {id : NodeId} {e : LogEntry} (discarded : .discarded id e ∈ events) {n : RaftNode FileStorage} {h : Peer}
    (found : p.cluster.nodes[id]? = some n) (found' : p.hosts[id]? = some h) :
    Stored codec h.commitTsBase h.engine e := by
  obtain ⟨g,shown,along⟩ := compacting_run shared codec engine run
  obtain ⟨faithful,done⟩ := along.peer id n h found found'
  have tracked := along.held.tracked found
  obtain ⟨⟨t,log,committed,positive,inside⟩,covered⟩ := done e discarded
  intro batch read
  have below := covered ⟨batch,read⟩
  obtain ⟨k,le,watermark,same⟩ := faithful.applied
  have bound := tracked.bound
  have there : ((g.log id).take k)[e.index - 1]? = some e := by
    rw [List.getElem?_take_of_lt (by omega),← List.getElem?_take_of_lt (show e.index - 1 < n.commitIndex by omega)]
    have long := (List.getElem?_eq_some_iff.mp inside).1
    rcases committed.total tracked.inv tracked.committed with ⟨rest,whole⟩ | ⟨rest,whole⟩
    · rw [← whole,List.getElem?_append_left long]
      exact inside
    · rw [← whole,List.getElem?_append_left (by rw [List.length_take_of_le bound]; omega)] at inside
      exact inside
  have replayed := stored_replay codec (wellFormed id tracked.member) (Nat.le_of_eq faithful.base.symm)
    (LawfulRaftStorage.numbered tracked.holds) k
  rw [same]
  exact replayed.2.2 e (List.mem_of_getElem? there) batch read

def unhurried (p : Peers FileStorage) : CompactAct → Bool
  | .peer act => orderly itemCodec p act && match act with
    | .deliver position => p.cluster.sent[position]?.all (fun packet => decide (Whole packet.message))
    | _ => true
  | .compactLog id => p.hosts[id]?.all (fun h => h.pending.isEmpty)

theorem unhurried_sound (p : Peers FileStorage) (act : CompactAct) (passed : unhurried p act = true) :
    Unhurried itemCodec p act := by
  cases act with
  | peer act =>
    obtain ⟨first,second⟩ := Bool.and_eq_true_iff.mp passed
    refine ⟨orderly_sound p act first,?_⟩
    rintro position packet rfl found
    simpa [found] using second
  | compactLog id =>
    intro h found
    simpa [unhurried,found] using passed

def firstItem : LogEntry := ⟨1,2,ReplicatedCommand.encode itemCodec (.write (itemBatch 1))⟩

theorem discarded_writes_stored_item : ∃ events p n h,
    Library.Run (Peers.compactStep itemCodec) (Unhurried itemCodec) trioPeers events p ∧
    p.cluster.nodes[(2 : NodeId)]? = some n ∧ p.hosts[(2 : NodeId)]? = some h ∧ .discarded 2 firstItem ∈ events ∧
    n.storage.entries = [] ∧ Stored itemCodec h.commitTsBase h.engine firstItem := by
  obtain ⟨p,events,run,n,found,h,found',empty,shown⟩ := @Library.Run.exists_of_guarded _ _ _
    (Peers.compactStep itemCodec) (Unhurried itemCodec) (appliedRun.map .peer ++ [.compactLog 2,.peer (.restart 2)])
    trioPeers unhurried (fun p events => ∃ n ∈ p.cluster.nodes[(2 : NodeId)]?, ∃ h ∈ p.hosts[(2 : NodeId)]?,
      n.storage.entries = [] ∧ .discarded 2 firstItem ∈ events) (by decide +kernel)
    (fun p act _ => unhurried_sound p act)
  exact ⟨events,p,n,h,run,found,found',shown,empty,
    discarded_writes_stored trio_shared itemCodec _ (fun _ _ => Storage.wellFormed_empty) run shown found found'⟩

/-- Node two takes the committed write, its log is compacted before the driver applies
it, and the process stops. -/
def hurriedRun : List CompactAct := (appliedRun.take 14).map .peer ++ [.compactLog 2,.peer (.restart 2)]

theorem compaction_loses_write : ∃ events p n h,
    Library.Run (Peers.compactStep itemCodec) (fun _ _ => True) trioPeers events p ∧
    p.cluster.nodes[(2 : NodeId)]? = some n ∧ p.hosts[(2 : NodeId)]? = some h ∧ .discarded 2 firstItem ∈ events ∧
    n.commitIndex = 2 ∧ n.storage.entries = [] ∧ h.pending = [] ∧ h.commitTsBase = 0 ∧
    h.engine.commitWatermark = 0 ∧ (h.engine.get "Item" 1).isNone := by
  simp only [exists_and_left]
  exact Library.Run.exists_shown hurriedRun (by decide +kernel)

end AuraDb.Replication
