import AuraDb.Replication.Acknowledged

/-! What a replica's engine holds: the replay of the log up to its watermark, as long as no writer overtakes a
write that is still to be applied. -/
namespace AuraDb.Replication
open Std Raft RaftStorage LawfulRaftStorage Library.Consensus Replication.ReplicatedCommand
variable {codec : EnvelopeCodec} {engine : Storage} {base : Nat}

def replayEntry (codec : EnvelopeCodec) (base : Nat) (engine : Storage) (e : LogEntry) : Storage :=
  match decode codec e.command with
  | some (.write batch) =>
    if batch.ops.isEmpty then { engine with lastCommitTs := base + e.index }
    else engine.applied (base + e.index) batch
  | _ => engine

def replay (codec : EnvelopeCodec) (base : Nat) (entries : List LogEntry) (engine : Storage) : Storage :=
  entries.foldl (replayEntry codec base) engine

section Replay

theorem replayEntry_other {e : LogEntry} (other : ¬ isWrite codec e) : replayEntry codec base engine e = engine := by
  unfold replayEntry
  split
  · rename_i batch read
    exact absurd ⟨batch,read⟩ other
  · rfl

theorem replay_append (first second : List LogEntry) : replay codec base (first ++ second) engine =
    replay codec base second (replay codec base first engine) :=
  List.foldl_append ..

theorem replay_others {entries : List LogEntry} (others : ∀ e ∈ entries, ¬ isWrite codec e) :
    replay codec base entries engine = engine := by
  induction entries with
  | nil => rfl
  | cons e rest ih =>
    rw [replay,List.foldl_cons,replayEntry_other (others e (by simp))]
    exact ih (fun e inside => others e (by simp [inside]))

theorem commitWatermark_replayEntry {e : LogEntry} (write : isWrite codec e) :
    (replayEntry codec base engine e).commitWatermark = base + e.index := by
  obtain ⟨batch,read⟩ := write
  simp only [replayEntry,read]
  split <;> rfl

theorem applyEntry_eq (e : LogEntry) : applyEntry codec base engine e =
    if engine.commitWatermark < base + e.index then replayEntry codec base engine e else engine := by
  unfold applyEntry replayEntry
  cases read : decode codec e.command with
  | none => simp
  | some command =>
    cases command with
    | noop => simp [applyCommand]
    | schema command => exact command.elim
    | write batch =>
      simp only [applyCommand,Storage.applyCommittedBatch]
      by_cases above : engine.commitWatermark < base + e.index
      · have later : ¬ base + e.index ≤ engine.lastCommitTs := Nat.not_le.mpr above
        rw [if_pos above,if_neg later]
        split <;> rfl
      · have done : base + e.index ≤ engine.lastCommitTs := Nat.not_lt.mp above
        rw [if_neg above,if_pos done]

end Replay

def Replayed (codec : EnvelopeCodec) (base : Nat) (init : Storage) (log : List LogEntry) (k : Nat)
    (engine : Storage) : Prop :=
  engine.commitWatermark = base + k ∧ engine = replay codec base (log.take k) init

def WritesCovered (codec : EnvelopeCodec) (base : Nat) (engine : Storage) (entries : List LogEntry) : Prop :=
  ∀ e ∈ entries, isWrite codec e → base + e.index ≤ engine.commitWatermark

section Next
variable {k i : Nat} {init : Storage} {log : List LogEntry} {e : LogEntry}
section
variable (replayed : Replayed codec base init log k engine) (numbered : Raft.Numbered log)
  (covered : WritesCovered codec base engine (log.take i))
include replayed numbered covered

theorem Replayed.upto (le : k ≤ i) : engine = replay codec base (log.take i) init := by
  obtain ⟨watermark,same⟩ := replayed
  have between : log.take i = log.take k ++ (log.take i).drop k := by
    have shorter : (log.take i).take k = log.take k := by rw [List.take_take,Nat.min_eq_left le]
    rw [← shorter,List.take_append_drop]
  have others : ∀ x ∈ (log.take i).drop k, ¬ isWrite codec x := by
    intro x inside write'
    have le := covered x (List.mem_of_mem_drop inside) write'
    obtain ⟨j,at'⟩ := List.mem_iff_getElem?.mp inside
    rw [List.getElem?_drop,List.getElem?_take] at at'
    split at at'
    · have position := numbered _ x at'
      omega
    · cases at'
  rw [between,replay_append,← same,replay_others others]

theorem Replayed.next (found : log[i]? = some e) :
    ∃ k', k ≤ k' ∧ k' ≤ max k (i + 1) ∧ Replayed codec base init log k' (applyEntry codec base engine e) ∧
      WritesCovered codec base (applyEntry codec base engine e) (log.take (i + 1)) := by
  have watermark := replayed.1
  have index : e.index = i + 1 := numbered i e found
  have split : log.take (i + 1) = log.take i ++ [e] := by
    rw [List.take_add_one,found]
    rfl
  have still : ∀ {engine' : Storage}, engine.commitWatermark ≤ engine'.commitWatermark →
      (isWrite codec e → base + e.index ≤ engine'.commitWatermark) →
      WritesCovered codec base engine' (log.take (i + 1)) := by
    intro engine' more last x inside write
    rw [split] at inside
    rcases List.mem_append.mp inside with old | new
    · exact (covered x old write).trans more
    · rw [List.mem_singleton.mp new] at write ⊢
      exact last write
  rw [applyEntry_eq]
  split
  · by_cases write : isWrite codec e
    · have reached : (replayEntry codec base engine e).commitWatermark = base + (i + 1) := by
        rw [commitWatermark_replayEntry write,index]
      refine ⟨i + 1,by omega,by omega,⟨reached,?_⟩,still (by omega) (fun _ => by omega)⟩
      rw [split,replay_append,← replayed.upto numbered covered (by omega)]
      rfl
    · rw [replayEntry_other write]
      exact ⟨k,le_rfl,by omega,replayed,still le_rfl (fun is => absurd is write)⟩
  · exact ⟨k,le_rfl,by omega,replayed,still le_rfl (fun _ => by omega)⟩

end

end Next

variable {S : Type} {init : NodeId → Storage} {voters : List NodeId} {shown : List Reply} {n : RaftNode S}
  {id : NodeId}

/-- The driver still has to apply the entries from some position on; every write before it is covered, and so is
every write before a waiting proposal. -/
structure Faithful [RaftStorage S] [LawfulRaftStorage S] (codec : EnvelopeCodec) (voters : List NodeId)
    (init : NodeId → Storage) (g : History) (shown : List Reply) (id : NodeId) (n : RaftNode S) (h : Peer) : Prop
    extends Honest codec voters g shown id n h where
  base : h.commitTsBase = (init id).commitWatermark
  applied : ∃ k, k ≤ n.commitIndex ∧ Replayed codec h.commitTsBase (init id) (g.log id) k h.engine
  pending : ∃ m, LawfulRaftStorage.base n.storage ≤ m ∧ m ≤ n.lastApplied ∧
    h.pending = ((g.log id).take n.lastApplied).drop m ∧ WritesCovered codec h.commitTsBase h.engine ((g.log id).take m)
  readable : ∀ w, h.writer = some w →
    decode codec (encode codec (.write w.batch)) = some (.write w.batch)
  ahead : ∀ w, h.writer = some w →
    WritesCovered codec h.commitTsBase h.engine ((g.leaderLog w.term).take (w.index - 1))

section Growth
variable [RaftStorage S] [LawfulRaftStorage S] {g g' : History} {replies : List Reply} {n' : RaftNode S} {h : Peer}

theorem Faithful.mono (faithful : Faithful codec voters init g shown id n h) (grows : Grows g g')
    (kept : ∀ k, k ≤ n.commitIndex → (g'.log id).take k = (g.log id).take k)
    (forward : n.commitIndex ≤ n'.commitIndex) (same : n'.lastApplied = n.lastApplied)
    (boundary : LawfulRaftStorage.base n'.storage = LawfulRaftStorage.base n.storage)
    (quiet : ∀ ts w state, .acknowledged id ts w state ∉ replies) :
    Faithful codec voters init g' (shown ++ replies) id n' h where
  toHonest := faithful.toHonest.mono grows forward (same ▸ faithful.within.trans forward) quiet
  base := faithful.base
  applied := by
    obtain ⟨k,le,replayed⟩ := faithful.applied
    refine ⟨k,le.trans forward,?_⟩
    rw [Replayed,kept k le]
    exact replayed
  pending := by
    obtain ⟨m,low,le,rest,covered⟩ := faithful.pending
    have within := faithful.within
    rw [same,kept _ within,boundary]
    refine ⟨m,low,le,rest,?_⟩
    rw [kept m (le.trans within)]
    exact covered
  readable := faithful.readable
  ahead w waits := by
    obtain ⟨rest,longer⟩ := grows.leaderLog w.term
    have proposed := faithful.proposed w waits
    have inside := (List.getElem?_eq_some_iff.mp proposed.entry).1
    rw [← longer,List.take_append_of_le_length (Nat.le_of_lt inside)]
    exact faithful.ahead w waits

theorem Faithful.stable : Stable (S := S) (Faithful codec voters init) := by
  intro g g' shown replies id other n h moved different theirs faithful
  apply faithful.mono moved.toGrows _ le_rfl rfl rfl
  · intro ts w state seen
    exact different (theirs _ seen)
  · intro k _
    rw [moved.logs other different]

theorem Faithful.refuse (faithful : Faithful codec voters init g shown id n h) (error : ReplicateError) :
    Faithful codec voters init g (shown ++ (h.refuse id n error).replies) id n { h with writer := none } :=
  { faithful with toHonest := faithful.toHonest.refuse error, readable := by simp, ahead := by simp }

end Growth

/-- A proposal is made when the engine has every write of the node's own log; a wait ends with a commit only in
a state that is not of a newer term. -/
def Orderly [RaftStorage S] (codec : EnvelopeCodec) (p : Peers S) : PeerAct → Prop
  | .propose id batch =>
    decode codec (encode codec (.write batch)) = some (.write batch) ∧
    ∀ n h, p.cluster.nodes[id]? = some n → p.hosts[id]? = some h → n.role = .leader →
      ∀ i e, entryAt n.storage i = some e → isWrite codec e →
        h.commitTsBase + i ≤ h.engine.commitWatermark
  | .wake id => ∀ h w, p.hosts[id]? = some h → h.writer = some w →
      w.index ≤ h.commitState.commitIndex → h.commitState.term ≤ w.term
  | _ => True

section Kept
variable [RaftStorage S] [LawfulRaftStorage S] {cut : Prop} {g : History} {h : Peer} {t : Turn S}

theorem Faithful.idle (faithful : Faithful codec voters init g shown id n h) (tracked : Raft.Tracked voters cut g id n)
    (idle : h.pending = []) : WritesCovered codec h.commitTsBase h.engine ((g.log id).take n.lastApplied) := by
  obtain ⟨m,-,le,rest,covered⟩ := faithful.pending
  have within := faithful.within
  have bound := tracked.bound
  have reached : m = n.lastApplied := by
    rw [idle] at rest
    have length := congrArg List.length rest
    rw [List.length_drop,List.length_take_of_le (by omega),List.length_nil] at length
    omega
  exact reached ▸ covered

theorem faithful_drive {event : DriveEvent} (heard : Heard voters cut g id event) :
    Kept voters cut (Faithful codec voters init) g shown id (drive event) n h := by
  intro tracked faithful t taken
  obtain ⟨idle,g',moved,quiet,applied,low,same⟩ := drive_spec tracked heard faithful.within taken
  have kept : ∀ k, k ≤ n.commitIndex → (g'.log id).take k = (g.log id).take k := fun k le => moved.kept tracked le
  refine ⟨g',moved,faithful.toHonest.driven moved.toMoved quiet applied same,?_,?_,?_,?_,?_⟩
  all_goals rw [same]
  · exact faithful.base
  · obtain ⟨k,le,replayed⟩ := faithful.applied
    refine ⟨k,le.trans moved.forward,?_⟩
    rw [Replayed,kept k le]
    exact replayed
  · have within := faithful.within
    rw [applied]
    refine ⟨n.lastApplied,low,within.trans moved.forward,rfl,?_⟩
    rw [kept _ within]
    exact faithful.idle tracked idle
  · exact faithful.readable
  · have grown : Faithful codec voters init g' (shown ++ []) id
        { t.node with lastApplied := n.lastApplied, storage := n.storage } h :=
      faithful.mono moved.moved.toGrows kept moved.forward rfl rfl (by simp)
    exact grown.ahead

theorem faithful_applyNext : Kept voters cut (Faithful codec voters init) g shown id (applyNext codec) n h := by
  intro tracked faithful t taken
  obtain ⟨moved,sameNode,quiet,entry,rest,queue,free,same⟩ := applyNext_spec tracked taken
  have honest : Honest codec voters g (shown ++ t.replies) id n h :=
    faithful.toHonest.mono (.refl g) le_rfl faithful.within (by simp [quiet])
  obtain ⟨k,reached,replayed⟩ := faithful.applied
  obtain ⟨m,low,le,held,covered⟩ := faithful.pending
  have within := faithful.within
  have bound := tracked.bound
  rw [queue] at held
  have here : m < ((g.log id).take n.lastApplied).length := by
    by_contra past
    rw [List.drop_eq_nil_of_le (Nat.not_lt.mp past)] at held
    cases held
  rw [List.drop_eq_getElem_cons here,List.cons.injEq] at held
  obtain ⟨first,others⟩ := held
  have before : m < n.lastApplied := by
    rw [List.length_take_of_le (by omega)] at here
    exact here
  have found : (g.log id)[m]? = some entry := by rw [first,List.getElem_take,List.getElem?_eq_getElem]
  obtain ⟨k',-,upto,replayed',covered'⟩ := replayed.next (LawfulRaftStorage.numbered tracked.holds) covered found
  refine ⟨g,moved,?_⟩
  rw [same,sameNode]
  refine ⟨{ honest with },faithful.base,⟨k',by omega,replayed'⟩,
    ⟨m + 1,low.trans (Nat.le_succ m),before,others,covered'⟩,faithful.readable,?_⟩
  intro w waits x inside write
  have unchanged : applyEntry codec h.commitTsBase h.engine entry = h.engine := by
    apply applyEntry_other
    intro is
    rw [free is] at waits
    cases waits
  rw [unchanged]
  exact faithful.ahead w waits x inside write

theorem faithful_propose {batch : Batch} (readable : decode codec (encode codec (.write batch)) =
      some (.write batch)) (current : n.role = .leader → ∀ i e, entryAt n.storage i = some e → isWrite codec e →
      h.commitTsBase + i ≤ h.engine.commitWatermark) :
    Kept voters cut (Faithful codec voters init) g shown id (propose codec id batch) n h := by
  intro tracked faithful t taken
  obtain ⟨free,g',moved,applied,boundary,quiet,result⟩ := propose_spec tracked taken
  have kept : Faithful codec voters init g' (shown ++ t.replies) id t.node h :=
    faithful.mono moved.moved.toGrows (fun k le => moved.kept tracked le) moved.forward applied boundary quiet
  refine ⟨g',moved,?_⟩
  rcases result with same | ⟨w,role,same,rfl,index,lead,own⟩
  · rw [same]
    exact kept
  · rw [same]
    refine ⟨kept.toHonest.waits index lead own,kept.base,kept.applied,kept.pending,?_,?_⟩
    · rintro w' ⟨⟩
      exact readable
    · rintro w' ⟨⟩ x inside write
      rw [own,index,Nat.add_sub_cancel,List.take_left] at inside
      obtain ⟨i,at'⟩ := List.mem_iff_getElem?.mp inside
      have position := LawfulRaftStorage.numbered tracked.holds i x at'
      -- an entry that is no longer in the log is covered since it was compacted
      obtain ⟨m,low,-,-,covered⟩ := faithful.pending
      rcases Nat.lt_or_ge (LawfulRaftStorage.base n.storage) (i + 1) with retained | cut
      · rw [position]
        apply current role (i + 1) x _ write
        rw [entryAt_eq tracked.holds retained]
        exact at'
      · apply covered x _ write
        rw [List.mem_iff_getElem?]
        exact ⟨i,by rw [List.getElem?_take_of_lt (by omega)]; exact at'⟩

theorem own_entry (tracked : Raft.Tracked voters cut g id n) {w : Waiting} (proposed : Proposed codec g id w)
    {t : Nat} {log : List LogEntry} (committed : Library.Consensus.Committed voters g t log) (upto : t ≤ w.term)
    (reached : w.index ≤ log.length) (within : log.length ≤ n.commitIndex) :
    (g.log id)[w.index - 1]? = some (w.entry codec) ∧
      (g.log id).take (w.index - 1) = (g.leaderLog w.term).take (w.index - 1) := by
  have positive := proposed.positive
  have bound := tracked.bound
  have inLeader := committed.leader tracked.inv upto (by simp [proposed.lead])
  have inOwn : log <+: g.log id := by
    rcases committed.total tracked.inv tracked.committed with short | long
    · exact short.trans (List.take_prefix ..)
    · have same := long.eq_of_length_le (by rw [List.length_take_of_le bound]; omega)
      rw [← same]
      exact List.take_prefix ..
  obtain ⟨more,whole⟩ := inLeader
  obtain ⟨rest,own⟩ := inOwn
  have entry := proposed.entry
  rw [← whole,List.getElem?_append_left (by omega)] at entry
  rw [← whole,← own,List.getElem?_append_left (by omega),List.take_append_of_le_length (by omega),
    List.take_append_of_le_length (by omega)]
  exact ⟨entry,rfl⟩

theorem faithful_wake (current : ∀ w, h.writer = some w → w.index ≤ h.commitState.commitIndex →
      h.commitState.term ≤ w.term) : Kept voters cut (Faithful codec voters init) g shown id (wake id) n h := by
  intro tracked faithful t taken
  obtain ⟨moved,sameNode,result⟩ := wake_spec tracked taken
  refine ⟨g,moved,?_⟩
  rcases result with ⟨error,rfl⟩ | ⟨w,waits,reached,replied,same⟩
  · exact faithful.refuse error
  obtain ⟨log,committed,length⟩ := faithful.chosen
  have published := faithful.published
  obtain ⟨found,before⟩ := own_entry tracked (faithful.proposed w waits) committed (current w waits reached)
    (by omega) (by omega)
  have positive := (faithful.proposed w waits).positive
  have covered := faithful.ahead w waits
  rw [← before] at covered
  obtain ⟨k,le,replayed⟩ := faithful.applied
  obtain ⟨k',more,upto,replayed',-⟩ := replayed.next (LawfulRaftStorage.numbered tracked.holds) covered found
  have inline : applyEntry codec h.commitTsBase h.engine (w.entry codec) =
      applyCommand h.engine (.write w.batch) (h.commitTsBase + w.index) := by
    unfold applyEntry
    rw [show (w.entry codec).command = encode codec (.write w.batch) from rfl,faithful.readable w waits]
    rfl
  rw [inline] at replayed'
  have watermark : h.engine.commitWatermark ≤
      (applyCommand h.engine (.write w.batch) (h.commitTsBase + w.index)).commitWatermark := by
    rw [replayed.1,replayed'.1]
    omega
  rw [same,replied,sameNode]
  refine ⟨faithful.toHonest.acknowledge tracked.inv waits reached _ _,faithful.base,⟨k',by omega,replayed'⟩,?_,
    by simp,by simp⟩
  obtain ⟨m,low,le',rest,covered'⟩ := faithful.pending
  exact ⟨m,low,le',rest,fun x inside write => (covered' x inside write).trans watermark⟩

theorem faithful_timeout : Kept voters cut (Faithful codec voters init) g shown id (timeout id) n h := by
  intro tracked faithful t taken
  obtain ⟨moved,error,rfl⟩ := timeout_spec tracked taken
  exact ⟨g,moved,faithful.refuse error⟩

theorem faithful_campaign : Kept voters cut (Faithful codec voters init) g shown id
    (fun n h => some { node := n.campaign, host := h }) n h := by
  rintro tracked faithful t ⟨⟩
  obtain ⟨g',moved,applied,boundary⟩ := moved_campaign tracked
  refine ⟨g',moved.taken rfl (by simp),?_⟩
  exact faithful.mono moved.moved.toGrows (fun k le => moved.kept tracked le) moved.forward applied
    boundary (by simp)

theorem faithful_restart (cleared : Raft.Tracked voters cut g id n → Cleared n.storage) :
    Kept voters cut (Faithful codec voters init) g shown id (restart codec) n h := by
  intro tracked faithful t taken
  obtain ⟨moved,quiet,applied,boundary,same⟩ := restart_spec tracked (cleared tracked) taken
  have kept : Honest codec voters g (shown ++ t.replies) id t.node h :=
    faithful.toHonest.mono (.refl g) moved.forward (Nat.le_of_eq applied) (by simp [quiet])
  obtain ⟨k,le,replayed⟩ := faithful.applied
  obtain ⟨m,low,le',-,covered⟩ := faithful.pending
  have within := faithful.within
  have forward := moved.forward
  refine ⟨g,moved,?_⟩
  rw [same]
  refine ⟨⟨kept.within,Nat.zero_le _,⟨[],.inl rfl,rfl⟩,by simp,kept.acknowledged⟩,faithful.base,
    ⟨k,le.trans moved.forward,replayed⟩,⟨LawfulRaftStorage.base n.storage,Nat.le_of_eq boundary,?_,?_,?_⟩,
    by simp,by simp⟩
  · omega
  · rw [applied]
  · intro x inside write
    exact covered x ((List.take_prefix_take_left low).subset inside) write

theorem faithful_start {config : NodeId → RaftConfig} (shared : Shared voters config) (codec : EnvelopeCodec)
    (storage : NodeId → S) (fresh : ∀ id ∈ voters, Holds (storage id) [] ∧ hardState (storage id) = {})
    (init : NodeId → Storage) :
    Along voters cut (Faithful codec voters init) State.initial [] (Peers.start voters config storage init) := by
  have honest : Along voters cut (Honest codec voters) _ [] _ := honest_start shared codec storage fresh init
  refine ⟨honest.held,honest.known,?_⟩
  intro id n h found found'
  have kept := honest.peer id n h found found'
  have started : (Cluster.start voters config storage).nodes[id]? = some n := found
  rw [Cluster.nodes_start] at started
  rw [hosts_start] at found'
  split at found'
  · rename_i member
    rw [if_pos member] at started
    cases started
    cases found'
    refine ⟨kept,rfl,⟨0,Nat.zero_le _,rfl,rfl⟩,⟨0,?_,Nat.zero_le _,by simp [State.initial],by simp [WritesCovered]⟩,
      by simp,by simp⟩
    exact base_le (fresh id member).1
  · cases found'

theorem Along.step_faithful {p p' : Peers S} {replies : List Reply} {act : PeerAct}
    (along : Along voters cut (Faithful codec voters init) g shown p) (orderly : Orderly codec p act)
    (taken : p.step codec act = some (p',replies))
    (whole : ∀ position packet, act = .deliver position → p.cluster.sent[position]? = some packet →
      Whole packet.message) (cleared : ∀ id (n : RaftNode S), Raft.Tracked voters cut g id n → Cleared n.storage) :
    ∃ g', Grows g g' ∧ Along voters cut (Faithful codec voters init) g' (shown ++ replies) p' := by
  refine along.step Faithful.stable taken whole
    (fun _ _ _ _ heard => faithful_drive heard) (fun _ _ _ => faithful_applyNext) ?_ ?_
    (fun _ _ _ => faithful_timeout) (fun _ _ _ => faithful_campaign)
    (fun id n _ => faithful_restart (cleared id n))
  · rintro id n h batch rfl found found'
    exact faithful_propose orderly.1 (orderly.2 n h found found')
  · rintro id n h rfl found
    exact faithful_wake (fun w => orderly h w found)

theorem faithful_run {p p' : Peers S} (along : Along voters False (Faithful codec voters init) g shown p)
    {later : List Reply} (run : Library.Run (Peers.step codec) (Orderly codec) p later p') :
    ∃ g', Along voters False (Faithful codec voters init) g' (shown ++ later) p' := by
  induction run with
  | start => exact ⟨g,by simpa using along⟩
  | next before act orderly taken ih =>
    obtain ⟨g',along'⟩ := ih
    rw [← List.append_assoc]
    obtain ⟨g2,-,along2⟩ :=
      along'.step_faithful orderly taken (fun _ _ _ => along'.whole) (fun _ _ => cleared_of_uncompacted)
    exact ⟨g2,along2⟩

end Kept

variable [RaftStorage S] [LawfulRaftStorage S]

/-- The engine of every replica is its first engine with the committed writes applied in order, up to the log
index its watermark stands for. -/
theorem replica_convergence {voters : List NodeId} {config : NodeId → RaftConfig} (shared : Shared voters config)
    (codec : EnvelopeCodec) (storage : NodeId → S)
    (fresh : ∀ id ∈ voters, Holds (storage id) [] ∧ hardState (storage id) = {}) (engine : NodeId → Storage)
    {shown : List Reply} {p : Peers S}
    (run : Library.Run (Peers.step codec) (Orderly codec) (Peers.start voters config storage engine) shown p)
    {id : NodeId} {n : RaftNode S} {h : Peer} (found : p.cluster.nodes[id]? = some n)
    (found' : p.hosts[id]? = some h) :
    ∃ k, h.engine.commitWatermark = (engine id).commitWatermark + k ∧ k ≤ n.commitIndex ∧
      ∀ (j : NodeId) (m : RaftNode S), p.cluster.nodes[j]? = some m → k ≤ m.commitIndex →
        h.engine = replay codec (engine id).commitWatermark
          ((List.range' 1 k).filterMap (entryAt m.storage)) (engine id) := by
  obtain ⟨g,along⟩ := faithful_run (faithful_start shared codec storage fresh engine) run
  have faithful := along.peer id n h found found'
  obtain ⟨k,le,watermark,same⟩ := faithful.applied
  rw [faithful.base] at watermark same
  refine ⟨k,watermark,le,?_⟩
  intro j m other far
  have tracked' := along.held.tracked other
  have bound' := tracked'.bound
  have range := filterMap_entryAt tracked'.holds k 0 (Nat.le_of_eq (uncompacted tracked')) (by omega)
  rw [Nat.zero_add,Nat.zero_add,List.drop_zero] at range
  have agree := along.held.committed_agree found other le far
  rw [range,← agree]
  exact same

def orderly (codec : EnvelopeCodec) (p : Peers FileStorage) : PeerAct → Bool
  | .propose id batch => decide (decode codec (encode codec (.write batch)) =
      some (.write batch)) && p.cluster.nodes[id]?.all (fun n => p.hosts[id]?.all (fun h => n.storage.entries.zipIdx.all
        (fun (e,k) => !decide (isWrite codec e) ||
          decide (h.commitTsBase + (n.storage.baseIndex + k + 1) ≤ h.engine.commitWatermark))))
  | .wake id => p.hosts[id]?.all (fun h => h.writer.all (fun w => decide (h.commitState.term ≤ w.term)))
  | _ => true

theorem orderly_sound {codec : EnvelopeCodec} (p : Peers FileStorage) (act : PeerAct)
    (passed : orderly codec p act = true) : Orderly codec p act := by
  cases act with
  | propose id batch =>
    obtain ⟨decodes,quiet⟩ := Bool.and_eq_true_iff.mp passed
    refine ⟨of_decide_eq_true decodes,?_⟩
    intro n h found found' _ i e at' write
    obtain ⟨k,slot,inside⟩ := Option.bind_eq_some_iff.mp at'
    have index : n.storage.baseIndex + k + 1 = i := by
      unfold FileStorage.slot at slot
      split_ifs at slot
      cases slot
      omega
    simp only [found,found',Option.all_some,List.all_eq_true] at quiet
    simpa [write,index] using quiet (e,k) (List.mk_mem_zipIdx_iff_getElem?.mpr inside)
  | wake id =>
    intro h w found waits _
    simpa [orderly,found,waits] using passed
  | _ => trivial

theorem replica_convergence_item : ∃ shown p n h,
    Library.Run (Peers.step itemCodec) (Orderly itemCodec) trioPeers shown p ∧
    p.cluster.nodes[(2 : NodeId)]? = some n ∧ p.hosts[(2 : NodeId)]? = some h ∧
    h.engine.commitWatermark = 2 ∧ (h.engine.get "Item" 1).isSome ∧
    h.engine = replay itemCodec 0 ((List.range' 1 2).filterMap (entryAt n.storage)) ⟨∅,∅,0,0⟩ := by
  obtain ⟨p,shown,run,n,found,h,found',commit,watermark,item⟩ := @Library.Run.exists_of_guarded _ _ _
    (Peers.step itemCodec) (Orderly itemCodec) appliedRun trioPeers (orderly itemCodec)
    (fun p _ => ∃ n ∈ p.cluster.nodes[(2 : NodeId)]?, ∃ h ∈ p.hosts[(2 : NodeId)]?,
      n.commitIndex = 2 ∧ h.engine.commitWatermark = 2 ∧ (h.engine.get "Item" 1).isSome) (by decide +kernel)
    (fun p act _ => orderly_sound p act)
  obtain ⟨k,reached,-,same⟩ := replica_convergence trio_shared itemCodec _ (file_fresh _) _ run found found'
  have two : k = 2 := by
    rw [watermark] at reached
    change 2 = 0 + k at reached
    omega
  subst two
  exact ⟨shown,p,n,h,run,found,found',watermark,item,same 2 n found (Nat.le_of_eq commit.symm)⟩

/-- The second write is proposed behind one that timed out, both are committed by one message, and the second
writer applies its batch before the driver. -/
def overtakenRun : List PeerAct :=
  [.campaign 1,.tick 1,.deliver 0,.deliver 2,.propose 1 (itemBatch 1),.timeout 1,.propose 1 (itemBatch 2),.tick 1,
    .deliver 7,.deliver 9,.wake 1,.applyNext 1,.applyNext 1,.applyNext 1]

/-- The leader's engine lacks a committed write below its watermark for good. -/
theorem replica_skips_write : ∃ shown p n h, Library.Run (Peers.step itemCodec) (fun _ _ => True) trioPeers shown p ∧
    p.cluster.nodes[(1 : NodeId)]? = some n ∧ p.hosts[(1 : NodeId)]? = some h ∧
    n.commitIndex = 3 ∧ h.engine.commitWatermark = 3 ∧ h.pending = [] ∧
    entryAt n.storage 2 = some ⟨1,2,ReplicatedCommand.encode itemCodec (.write (itemBatch 1))⟩ ∧
    (h.engine.get "Item" 1).isNone ∧
    ((replay itemCodec 0 ((List.range' 1 3).filterMap (entryAt n.storage)) ⟨∅,∅,0,0⟩).get "Item" 1).isSome := by
  simp only [exists_and_left]
  exact Library.Run.exists_shown overtakenRun (by decide +kernel)

end AuraDb.Replication
