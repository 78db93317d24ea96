import AuraDb.Engine.System
import AuraDb.Replication.Convergence

/-! Writes of clients on the leader of a cluster, validated against its engine before the batch is proposed;
entries before it in the log may still be missing there. -/
namespace AuraDb.Replication
open Std Raft RaftStorage LawfulRaftStorage Library.Consensus
variable {batch : Batch} {p : Peers FileStorage}

/-- A request comes with the engine that validates it, indexes included. -/
inductive ClientAct where
  | peer (act : PeerAct)
  | request (id : NodeId) (e : Engine) (q : Request)

/-- What a run shows: the replies, and the requests whose batch went into the log. -/
inductive ClientEvent where
  | replied (reply : Reply)
  | submitted (id : NodeId) (q : Request) (w : Waiting)

section Model
variable {S : Type} [RaftStorage S] [Host]

def Peers.serve (codec : EnvelopeCodec) (p : Peers S) : ClientAct → Option (Peers S × List ClientEvent)
  | .peer act => (p.step codec act).map (fun r => (r.1,r.2.map .replied))
  | .request id e q => match e.submit q with
    | .ok (some batch) => (p.step codec (.propose id batch)).map (fun r =>
        (r.1,r.2.map .replied ++ (r.1.hosts[id]?.bind (·.writer)).toList.map (.submitted id q)))
    | _ => none

omit [RaftStorage S] in
/-- Batches are proposed by validated requests only, on the node's own engine with indexes that know every live
record. -/
def Validated (p : Peers S) : ClientAct → Prop
  | .peer act => ∀ id batch, act ≠ .propose id batch
  | .request id e _ => ∀ h, p.hosts[id]? = some h → e.storage = h.engine ∧ e.Covered

def InOrder (codec : EnvelopeCodec) (p : Peers S) : ClientAct → Prop
  | .peer act => Orderly codec p act
  | .request id e q => ∀ batch, e.submit q = .ok (some batch) → Orderly codec p (.propose id batch)

end Model

section Runs
variable {S : Type} [RaftStorage S] [LawfulRaftStorage S] [Host]
  {codec : EnvelopeCodec} {voters : List NodeId} {init : NodeId → Storage} {g g' : History}
  {shown : List Reply} {events : List ClientEvent} {id : NodeId} {n : RaftNode S} {h : Peer} {w : Waiting}
  {p p' : Peers S}

omit [Host] in
theorem propose_accepted {t : Turn S} (taken : propose codec id batch n h = some t)
    (waits : t.host.writer = some w) : t.node.role = .leader ∧ w.term = t.node.term ∧
      w.batch = batch ∧ t.host = { h with writer := some w } := by
  unfold propose at taken
  split at taken
  · cases taken
  split at taken
  · cases taken
    cases waits
  rename_i role
  split at taken
  · cases taken
    cases waits
  · rename_i n' index done
    cases taken
    cases waits
    have appended : n.appendOwn (ReplicatedCommand.encode codec (.write batch)) = (n',.ok index) := by
      simpa [RaftNode.propose,not_not.mp role] using done
    have kept := (RaftNode.keeps_appendOwn n (ReplicatedCommand.encode codec (.write batch))).role
    rw [appended] at kept
    exact ⟨kept.trans (not_not.mp role),rfl,rfl,rfl⟩

omit [Host] in
theorem Faithful.proposed_on (faithful : Faithful codec voters init g shown id n h)
    (tracked : Raft.Tracked voters False g id n) (role : n.role = .leader) (waits : h.writer = some w)
    (term : w.term = n.term) (before : h.engine.commitWatermark < h.commitTsBase + w.index) :
    h.engine = replay codec (init id).commitWatermark ((g.leaderLog w.term).take (w.index - 1)) (init id) := by
  obtain ⟨k,-,replayed⟩ := faithful.applied
  have watermark := replayed.1
  have covered := faithful.ahead w waits
  obtain ⟨-,own,-,-⟩ := tracked.leader role
  rw [term,tracked.term,own] at covered ⊢
  rw [← faithful.base]
  exact replayed.upto (LawfulRaftStorage.numbered tracked.holds) covered (by omega)

def Vouched (codec : EnvelopeCodec) (init : NodeId → Storage) (events : List ClientEvent) (g : History) : Prop :=
  ∀ id q w, .submitted id q w ∈ events → Proposed codec g id w ∧
    Judged (replay codec (init id).commitWatermark ((g.leaderLog w.term).take (w.index - 1)) (init id)) q w.batch

theorem Vouched.mono (vouched : Vouched codec init events g) (grows : Grows g g') : Vouched codec init events g' := by
  intro id q w submitted
  obtain ⟨proposed,judged⟩ := vouched id q w submitted
  refine ⟨proposed.mono grows,?_⟩
  obtain ⟨rest,longer⟩ := grows.leaderLog w.term
  have inside := (List.getElem?_eq_some_iff.mp proposed.entry).1
  rw [← longer,List.take_append_of_le_length inside.le]
  exact judged

theorem vouched_request (along : Along voters False (Faithful codec voters init) g shown p) {e : Engine}
    {q : Request} {replies : List Reply} (valid : Validated p (.request id e q))
    (submits : e.submit q = .ok (some batch)) (taken : p.step codec (.propose id batch) = some (p',replies))
    (along' : Along voters False (Faithful codec voters init) g' (shown ++ replies) p')
    (waits : p'.hosts[id]?.bind (·.writer) = some w) : Proposed codec g' id w ∧
      Judged (replay codec (init id).commitWatermark ((g'.leaderLog w.term).take (w.index - 1)) (init id)) q
        w.batch := by
  simp only [Peers.step,Peers.turn] at taken
  split at taken
  swap
  · cases taken
  rename_i n h found found'
  obtain ⟨t,done,same⟩ := Option.map_eq_some_iff.mp taken
  cases same
  simp only [ExtTreeMap.getElem?_insert_self,Option.bind_some] at waits
  have tracked := along.held.tracked found
  have faithful := along.peer id n h found found'
  obtain ⟨free,g2,moved,-,-,-,result⟩ := propose_spec tracked done
  obtain ⟨role,term,rfl,host⟩ := propose_accepted done waits
  have tracked' : Raft.Tracked voters False g' id t.node := along'.held.tracked (by simp)
  have faithful' := along'.peer id t.node t.host (by simp) (by simp)
  obtain ⟨covers,covered⟩ := valid h found'
  have judged := Engine.judged_of_submit covered submits
  -- the engine has not moved since the request was validated
  have before : t.host.engine.commitWatermark < t.host.commitTsBase + w.index := by
    obtain ⟨k,le,watermark,-⟩ := faithful.applied
    have bound := tracked.bound
    rcases result with unchanged | ⟨v,-,host',-,index,-,-⟩
    · rw [unchanged,free] at waits
      cases waits
    · rw [host'] at waits
      cases waits
      simp only [host',index]
      omega
  have standing := faithful'.proposed_on tracked' role waits term before
  refine ⟨faithful'.proposed w waits,?_⟩
  rw [← standing,host]
  simpa [covers] using judged

theorem vouched_run {config : NodeId → RaftConfig} (shared : Shared voters config) (codec : EnvelopeCodec)
    (storage : NodeId → S) (fresh : ∀ id ∈ voters, Holds (storage id) [] ∧ hardState (storage id) = {})
    (engine : NodeId → Storage)
    (run : Library.Run (Peers.serve codec) (fun p act => Validated p act ∧ InOrder codec p act)
      (Peers.start voters config storage engine) events p) :
    ∃ g shown, Along voters False (Faithful codec voters engine) g shown p ∧ Vouched codec engine events g := by
  induction run with
  | start => exact ⟨_,_,faithful_start shared codec storage fresh engine,by simp [Vouched]⟩
  | next before act allowed taken ih =>
    obtain ⟨g,shown,along,vouched⟩ := ih
    obtain ⟨valid,inOrder⟩ := allowed
    cases act with
    | peer act =>
      obtain ⟨⟨p,replies⟩,done,same⟩ := Option.map_eq_some_iff.mp taken
      cases same
      obtain ⟨g',grows,along'⟩ := along.step_faithful inOrder done (fun _ _ _ => along.whole)
        (fun _ _ => cleared_of_uncompacted)
      refine ⟨g',_,along',?_⟩
      intro id q w submitted
      rcases List.mem_append.mp submitted with old | new
      · exact vouched.mono grows id q w old
      · simp at new
    | request id e q =>
      simp only [Peers.serve] at taken
      split at taken
      swap
      · cases taken
      rename_i batch submits
      obtain ⟨⟨p,replies⟩,done,same⟩ := Option.map_eq_some_iff.mp taken
      cases same
      obtain ⟨g',grows,along'⟩ := along.step_faithful (inOrder batch submits) done (fun _ _ _ => along.whole)
        (fun _ _ => cleared_of_uncompacted)
      refine ⟨g',_,along',?_⟩
      intro id' q' w submitted
      simp only [List.mem_append,List.mem_map,Option.mem_toList,reduceCtorEq,and_false,exists_false,false_or,
        ClientEvent.submitted.injEq] at submitted
      rcases submitted with old | ⟨w',waits,rfl,rfl,rfl⟩
      · exact vouched.mono grows id' q' w old
      · exact vouched_request along valid submits done along' waits

end Runs

/-- As long as writers propose and wake in order, a committed batch satisfies uniqueness and
first-committer-wins in the state of the entries before it. -/
theorem validated_against_log {S : Type} [RaftStorage S] [LawfulRaftStorage S] [Host] {voters : List NodeId}
    {config : NodeId → RaftConfig} (shared : Shared voters config) (codec : EnvelopeCodec) (storage : NodeId → S)
    (fresh : ∀ id ∈ voters, Holds (storage id) [] ∧ hardState (storage id) = {}) (engine : NodeId → Storage)
    {events : List ClientEvent} {p : Peers S}
    (run : Library.Run (Peers.serve codec) (fun p act => Validated p act ∧ InOrder codec p act)
      (Peers.start voters config storage engine) events p)
    {id : NodeId} {q : Request} {w : Waiting} (submitted : .submitted id q w ∈ events) {j : NodeId}
    {n : RaftNode S} (found : p.cluster.nodes[j]? = some n) (committed : w.index ≤ n.commitIndex)
    (entry : entryAt n.storage w.index = some (w.entry codec)) :
    Judged (replay codec (engine id).commitWatermark
      ((List.range' 1 (w.index - 1)).filterMap (entryAt n.storage)) (engine id)) q w.batch := by
  obtain ⟨g,shown,along,vouched⟩ := vouched_run shared codec storage fresh engine run
  obtain ⟨proposed,judged⟩ := vouched id q w submitted
  have tracked := along.held.tracked found
  have bound := tracked.bound
  have positive := proposed.positive
  rw [along.held.entryAt_log found positive] at entry
  -- up to the entry, the log is that of the leader that proposed it
  have ends : (g.log j).take w.index = (g.log j).take (w.index - 1) ++ [w.entry codec] := by
    have next : w.index = w.index - 1 + 1 := by omega
    rw [next,List.take_add_one,Nat.add_sub_cancel,entry]
    rfl
  have inside := tracked.inv.grounded j _ (w.entry codec) (ends ▸ List.take_prefix ..)
  have same : (g.log j).take (w.index - 1) = (g.leaderLog w.term).take (w.index - 1) := by
    have shorter := (List.prefix_append _ [w.entry codec]).trans inside
    rw [List.prefix_iff_eq_take] at shorter
    rw [shorter,List.length_take_of_le (by omega)]
    rfl
  have before := filterMap_entryAt tracked.holds (w.index - 1) 0 (Nat.le_of_eq (uncompacted tracked)) (by omega)
  simp only [Nat.zero_add,List.drop_zero] at before
  rw [before,same]
  exact judged

def noteEngine : Engine := (System.fresh System.notes ⟨60,1⟩).engine

/-- The third note has an address of its own. -/
def insertNote (pk : String) : Request :=
  .mutate (.insert "notes" [("id",.text pk),("email",.text (if pk = "c" then "y" else "x"))])

def batchOn (e : Engine) (pk : String) : Batch :=
  match @Engine.submit plainHost e (insertNote pk) with
  | .ok (some batch) => batch
  | _ => ⟨0,[]⟩

def laterStorage : Storage := noteEngine.storage.applied 2 (batchOn noteEngine "a")

/-- The engine that has the first note, opened anew. -/
def laterEngine : Engine := (@Engine.openWith plainHost laterStorage ⟨60,1⟩ ∅).toOption.getD noteEngine

def checkedOn (pk : String) : Engine := if pk = "c" then laterEngine else noteEngine

def noteBatch (pk : String) : Batch := batchOn (checkedOn pk) pk

def noteCodec : EnvelopeCodec :=
  numbering (fun batch => if batch.ops.map (·.id) = [System.noteId "a"] then 0 else
    if batch.ops.map (·.id) = [System.noteId "b"] then 1 else 2)
    (fun n => noteBatch (if n = 0 then "a" else if n = 1 then "b" else "c"))

def notePeers : Peers FileStorage := .start [1,2,3] trio (fun _ => {}) (fun _ => noteEngine.storage)

def PeerAct.proposes : PeerAct → Bool
  | .propose _ _ => true
  | _ => false

theorem checkedOn_covered (pk : String) : @Engine.Covered plainHost (checkedOn pk) := by
  have sound : @Engine.Sound plainHost noteEngine :=
    @System.Started.sound plainHost _ (@System.fresh_started plainHost System.notes ⟨60,1⟩)
  have later : @Engine.Sound plainHost laterEngine := by
    obtain ⟨e,opened⟩ : ∃ e, @Engine.openWith plainHost laterStorage ⟨60,1⟩ ∅ = .ok e :=
      ⟨laterEngine,by decide +kernel⟩
    rw [show laterEngine = e by simp [laterEngine,opened,Except.toOption]]
    refine @Engine.openWith_sound _ plainHost _ (sound.storage.applied 2 _ (by decide +kernel)) ⟨60,1⟩ ∅ ?_ opened
    intro c schema held
    have named : noteEngine.storage.schemas.toList.all (fun p => p.2.name = p.1) = true := by decide +kernel
    simpa using List.all_eq_true.mp named (c,schema) (ExtTreeMap.mem_toList_iff_getElem?_eq_some.mpr held)
  unfold checkedOn
  split
  · exact @Engine.Sound.covered plainHost _ later
  · exact @Engine.Sound.covered plainHost _ sound

/-- A step of a peer, or a client's insert of a note on a node. -/
def noteAct : PeerAct ⊕ NodeId × String → ClientAct
  | .inl act => .peer act
  | .inr (id,pk) => .request id (checkedOn pk) (insertNote pk)

def requestValid (p : Peers FileStorage) : ClientAct → Bool
  | .peer act => !act.proposes
  | .request id e _ => p.hosts[id]?.all (fun h => decide (e.storage = h.engine))

theorem requestValid_sound {act : ClientAct} {steps : List (PeerAct ⊕ NodeId × String)}
    (inside : act ∈ steps.map noteAct) (passed : requestValid p act = true) : @Validated _ plainHost p act := by
  obtain ⟨step,-,rfl⟩ := List.mem_map.mp inside
  rcases step with act | ⟨id,pk⟩
  · rintro id batch rfl
    cases passed
  · intro h found
    exact ⟨by simpa [noteAct,requestValid,found] using passed,checkedOn_covered pk⟩

def requestOrderly (p : Peers FileStorage) : ClientAct → Bool
  | .peer act => orderly noteCodec p act
  | .request id e q => match @Engine.submit plainHost e q with
    | .ok (some batch) => orderly noteCodec p (.propose id batch)
    | _ => true

theorem requestOrderly_sound {act : ClientAct} (passed : requestOrderly p act = true) :
    @InOrder _ _ plainHost noteCodec p act := by
  cases act with
  | peer act => exact orderly_sound p act passed
  | request id e q =>
    intro batch submits
    exact orderly_sound p _ (by simpa [requestOrderly,submits] using passed)

def committedAt (p : Peers FileStorage) (index : Nat) : ClientEvent → Bool
  | .replied _ => false
  | .submitted id _ w => p.cluster.nodes[(1 : NodeId)]?.any (fun n => decide (id = 1 ∧ w.index = index ∧
      w.index ≤ n.commitIndex ∧ n.storage.entryAt w.index = some (w.entry noteCodec)))

theorem exists_of_committedAt {index : Nat} {events : List ClientEvent} {test : ClientEvent → Bool}
    (any : events.any (fun event => committedAt p index event && test event) = true) :
    ∃ q w n, .submitted 1 q w ∈ events ∧ p.cluster.nodes[(1 : NodeId)]? = some n ∧ w.index = index ∧
      w.index ≤ n.commitIndex ∧ entryAt n.storage w.index = some (w.entry noteCodec) ∧
      test (.submitted 1 q w) = true := by
  obtain ⟨event,inside,hit⟩ := List.any_eq_true.mp any
  obtain ⟨there,tested⟩ := Bool.and_eq_true_iff.mp hit
  cases event with
  | replied reply => cases there
  | submitted id q w =>
    obtain ⟨n,found,holds⟩ := (Option.any_eq_true _ _).mp there
    obtain ⟨rfl,rest⟩ := of_decide_eq_true holds
    exact ⟨q,w,n,inside,found,rest.1,rest.2.1,rest.2.2,tested⟩

def stateBefore (n : RaftNode FileStorage) (index : Nat) : Storage :=
  replay noteCodec 0 ((List.range' 1 (index - 1)).filterMap (entryAt n.storage)) noteEngine.storage

/-- The wait for the first note ends by its deadline; it is committed and applied all the same, and the third is
checked after it. -/
def insertRun : List (PeerAct ⊕ NodeId × String) :=
  [.inl (.campaign 1),.inl (.tick 1),.inl (.deliver 0),.inl (.deliver 2),.inr (1,"a"),.inl (.timeout 1),.inl (.tick 1),
    .inl (.deliver 5),.inl (.deliver 7),.inl (.applyNext 1),.inl (.applyNext 1),.inr (1,"c"),.inl (.tick 1),
    .inl (.deliver 8),.inl (.deliver 10)]

def noteBehind (p : Peers FileStorage) (index : Nat) : Bool :=
  p.cluster.nodes[(1 : NodeId)]?.any (fun n => ((stateBefore n index).get "notes" (System.noteId "a")).isSome)

theorem validated_against_log_note : ∃ events p q w n, Library.Run (@Peers.serve _ _ plainHost noteCodec)
      (fun p act => @Validated _ plainHost p act ∧ @InOrder _ _ plainHost noteCodec p act) notePeers events p ∧
    .submitted 1 q w ∈ events ∧ p.cluster.nodes[(1 : NodeId)]? = some n ∧ w.index = 3 ∧ w.index ≤ n.commitIndex ∧
    noteBehind p w.index = true ∧ @Judged plainHost (stateBefore n w.index) q w.batch := by
  obtain ⟨p,events,run,any⟩ := @Library.Run.exists_of_guarded _ _ _ (@Peers.serve _ _ plainHost noteCodec)
    (fun p act => @Validated _ plainHost p act ∧ @InOrder _ _ plainHost noteCodec p act) (insertRun.map noteAct) notePeers
    (fun p act => requestValid p act && requestOrderly p act)
    (fun p events => events.any (fun event => committedAt p 3 event && noteBehind p 3) = true) (by decide +kernel) (by
      intro p act inside passed
      obtain ⟨valid,inOrder⟩ := Bool.and_eq_true_iff.mp passed
      exact ⟨requestValid_sound inside valid,requestOrderly_sound inOrder⟩)
  obtain ⟨q,w,n,inside,found,index,committed,entry,behind⟩ := exists_of_committedAt any
  exact ⟨events,p,q,w,n,run,inside,found,index,committed,index ▸ behind,
    @validated_against_log _ _ _ plainHost _ _ trio_shared noteCodec _ (file_fresh _) _ _ _ run _ _ _ inside _ _ found
      committed entry⟩

/-- The wait for the first note ends by its deadline, the second is proposed behind it, and one round commits
both. -/
def lateRun : List (PeerAct ⊕ NodeId × String) :=
  [.inl (.campaign 1),.inl (.tick 1),.inl (.deliver 0),.inl (.deliver 2),.inr (1,"a"),.inl (.timeout 1),.inr (1,"b"),
    .inl (.tick 1),.inl (.deliver 7),.inl (.deliver 9)]

abbrev Clashes (s : Storage) (batch : Batch) : Prop :=
  ∃ op ∈ batch.ops, ∃ r ∈ op.value, ∃ schema ∈ s.schemas[r.collection]?, ∃ r' ∈ s.get r.collection (System.noteId "a"),
    System.noteId "a" ≠ r.id ∧ schema.isUniqueField "email" = true ∧
      ∃ k ∈ @fieldKey plainHost "email" r, @fieldKey plainHost "email" r' = some k

theorem not_judged_of_clashes {s : Storage} {q : Request} (clash : Clashes s batch) :
    ¬@Judged plainHost s q batch := by
  intro judged
  obtain ⟨op,inside,r,value,schema,known,r',live,other,unique,k,mine,theirs⟩ := clash
  exact other (@Judged.unique plainHost _ _ _ judged op inside r value schema known "email" unique _ r' k live mine theirs)

def clashesBehind (p : Peers FileStorage) : ClientEvent → Bool
  | .replied _ => false
  | .submitted _ _ w => p.cluster.nodes[(1 : NodeId)]?.any (fun n => decide (Clashes (stateBefore n w.index) w.batch))

/-- The second note is committed behind the first with the same address. -/
theorem validated_on_lagging_engine : ∃ events p q w n,
    Library.Run (@Peers.serve _ _ plainHost noteCodec) (@Validated _ plainHost) notePeers events p ∧
    .submitted 1 q w ∈ events ∧ p.cluster.nodes[(1 : NodeId)]? = some n ∧ w.index = 3 ∧ w.index ≤ n.commitIndex ∧
    entryAt n.storage w.index = some (w.entry noteCodec) ∧ ¬@Judged plainHost (stateBefore n w.index) q w.batch := by
  obtain ⟨p,events,run,any⟩ := @Library.Run.exists_of_guarded _ _ _ (@Peers.serve _ _ plainHost noteCodec)
    (@Validated _ plainHost) (lateRun.map noteAct) notePeers requestValid
    (fun p events => events.any (fun event => committedAt p 3 event && clashesBehind p event) = true) (by decide +kernel)
    (fun p act inside passed => requestValid_sound inside passed)
  obtain ⟨q,w,n,inside,found,index,committed,entry,clash⟩ := exists_of_committedAt any
  simp only [clashesBehind,found,Option.any_some,decide_eq_true_eq] at clash
  exact ⟨events,p,q,w,n,run,inside,found,index,committed,entry,not_judged_of_clashes clash⟩

end AuraDb.Replication
