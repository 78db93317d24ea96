import AuraDb.Engine.Cluster
import AuraDb.Replication.Recovery

/-! A node that is a cluster of its own. The log gives timestamps from its index and a pinned base; schema
drops, and writes outside cluster mode, move the same watermark without it. -/
namespace AuraDb.Replication
open Std Raft Replication.ReplicatedCommand Engine FileStorage

def displayNodeId (id : NodeId) : String :=
  let digits := Nat.toDigits 16 id
  String.ofList (List.replicate (16 - digits.length) '0' ++ digits)

def notLeaderHint : Option NodeId → String
  | some id => "this node is not the leader; current leader is node " ++ displayNodeId id ++
      "; retry the write against the leader"
  | none => "this node is not the leader and no leader is currently known; " ++
      "retry after a short backoff (a leader may not be elected yet)"

def raftErrToCore : RaftError → Error
  | .notLeader hint => .notLeader (notLeaderHint hint)
  | e => .internal ("raft: " ++ e.display)

/-- `replicate` of the log of a single voter: the entry is committed once it is proposed. -/
def replicate (codec : EnvelopeCodec) (commitTsBase : Nat) (raft : RaftNode FileStorage) (batch : Batch) :
    RaftNode FileStorage × Result Nat :=
  if raft.role ≠ .leader then (raft,.error (.notLeader (notLeaderHint raft.leaderId))) else
  match raft.propose (encode codec (.write batch)) with
  | (raft,.error e) => (raft,.error (raftErrToCore e))
  | (raft,.ok index) => (raft.takeCommitted.1,.ok (commitTsBase + index))

def toDatabase : WriteCommand → DatabaseCommand
  | .noop => .noop
  | .write batch => .write batch

def decodeDatabase (codec : EnvelopeCodec) (command : Command) : Option DatabaseCommand :=
  (decode codec command).map toDatabase

/-- The engine, the Raft directory and the pinned base, where there is one. -/
structure ClusterNode where
  engine : Engine
  raft : RaftNode FileStorage
  commitBase : Option Nat
  attached : Bool

inductive NodeAct where
  | create (schema : CollectionSchema)
  | drop (name : String)
  | request (q : Request)
  | restart (cluster : Bool) (options : EngineOptions) (stats : PlannerStats)

/-- What a run shows: the writes that returned Ok, with their timestamp, and the drops. -/
inductive NodeEvent where
  | acknowledged (ts : Nat) (batch : Batch)
  | dropped (name : String)

namespace ClusterNode
section Model
variable [Host]

def start (id : NodeId) (engine : Engine) : ClusterNode :=
  ⟨engine,.new (.singleNode id) {},none,false⟩

def answer (codec : EnvelopeCodec) (n : ClusterNode) (batch : Batch) : RaftNode FileStorage × Option (Result Nat) :=
  match n.attached, n.commitBase with
  | true, some base =>
    let next := replicate codec base n.raft batch
    (next.1,some next.2)
  | _, _ => (n.raft,none)

def request (codec : EnvelopeCodec) (n : ClusterNode) (q : Request) : Option (ClusterNode × List NodeEvent) :=
  match n.engine.submit q with
  | .ok (some batch) =>
    let asked := n.answer codec batch
    match n.engine.serveThrough asked.2 (.ok ()) q, (n.engine.storage.commitThrough asked.2 (.ok ()) batch).2 with
    | (e,.ok ()), .ok ts => some ({ n with engine := e, raft := asked.1 },[.acknowledged ts batch])
    | (e,.err _), _ => some ({ n with engine := e, raft := asked.1 },[])
    | _, _ => none
  | _ => match n.engine.serveThrough none (.ok ()) q with
    | (_,.panic _) => none
    | (e,_) => some ({ n with engine := e },[])

/-- `bootstrap`: pin the base, elect the node with its no-op, and replay the log. -/
def bootstrap (codec : EnvelopeCodec) (n : ClusterNode) (e : Engine) : Option ClusterNode :=
  let base := loadOrInitCommitBase ⟨e.storage,n.commitBase⟩
  let raft := (RaftNode.new n.raft.config n.raft.storage).campaign.takeCommitted.1
  match recover (decodeDatabase codec) raft.storage base raft.commitIndex e with
  | (e,.complete) => some ⟨e,raft,some base,true⟩
  | _ => none

def restart (codec : EnvelopeCodec) (n : ClusterNode) (cluster : Bool) (options : EngineOptions) (stats : PlannerStats) :
    Option ClusterNode :=
  match Engine.openWith n.engine.storage options stats with
  | .error _ => none
  | .ok e => if cluster then n.bootstrap codec e else some { n with engine := e, attached := false }

def step (codec : EnvelopeCodec) (n : ClusterNode) : NodeAct → Option (ClusterNode × List NodeEvent)
  | .create schema => some ({ n with engine := (n.engine.createSchema (.ok ()) schema).1 },[])
  | .drop name => match n.engine.dropSchema (.ok ()) (.ok ()) name with
    | (e,.ok ()) => some ({ n with engine := e },[.dropped name])
    | (e,.error _) => some ({ n with engine := e },[])
  | .request q => n.request codec q
  | .restart cluster options stats => (n.restart codec cluster options stats).map (fun n => (n,[]))

end Model

end ClusterNode

/-- The log answers above the watermark, requests write no two records with one unique key, and created schemas
fit. -/
def Advancing [Host] (n : ClusterNode) : NodeAct → Prop
  | .request q => n.engine.RequestApart q ∧ ∀ batch base, n.engine.submit q = .ok (some batch) → n.attached = true →
      n.commitBase = some base → n.engine.storage.commitWatermark < base + (n.raft.storage.lastIndex + 1)
  | .create schema => schema.validateDefinition = .ok () → n.engine.Fits schema
  | _ => True

def standing (c : String) (events : List NodeEvent) : List (Nat × Batch) :=
  events.foldl (fun acks event => match event with
    | .acknowledged ts batch => acks ++ [(ts,batch)]
    | .dropped name => if name = c then [] else acks) []

section Log

theorem appends_replicate (codec : EnvelopeCodec) (base : Nat) (raft : RaftNode FileStorage) (batch : Batch) :
    Appends (encode codec (.write batch)) raft.storage (replicate codec base raft batch).1.storage ∧
      (∀ ts, (replicate codec base raft batch).2 = .ok ts → ts = base + (raft.storage.lastIndex + 1)) ∧
      ∀ e, (replicate codec base raft batch).2 = .error e →
        (replicate codec base raft batch).1.storage.entries = raft.storage.entries := by
  obtain ⟨appends,accepted,refused⟩ := appends_appendOwn raft (encode codec (.write batch))
  unfold replicate
  split
  · exact ⟨⟨rfl,.inl rfl⟩,by simp,fun _ _ => rfl⟩
  · rename_i role
    have proposes : raft.propose (encode codec (.write batch)) =
        raft.appendOwn (encode codec (.write batch)) := if_neg role
    rw [proposes]
    split
    · rename_i done
      rw [done] at appends refused
      exact ⟨appends,by simp,fun _ _ => refused _ rfl⟩
    · rename_i index done
      rw [done] at appends accepted
      refine ⟨appends,?_,by simp⟩
      intro ts given
      cases given
      rw [accepted index rfl]

end Log

section Runs
variable {codec : EnvelopeCodec} {n n' : ClusterNode} {events now : List NodeEvent}

theorem standing_acknowledged (c : String) (events : List NodeEvent) (ts : Nat) (batch : Batch) :
    standing c (events ++ [.acknowledged ts batch]) = standing c events ++ [(ts,batch)] := by
  simp only [standing,List.foldl_append,List.foldl_cons,List.foldl_nil]

theorem standing_dropped (c : String) (events : List NodeEvent) (name : String) :
    standing c (events ++ [.dropped name]) = if name = c then [] else standing c events := by
  simp only [standing,List.foldl_append,List.foldl_cons,List.foldl_nil]

theorem answer_cases (codec : EnvelopeCodec) (n : ClusterNode) (batch : Batch) :
    (∃ base, n.commitBase = some base ∧ n.answer codec batch =
      ((replicate codec base n.raft batch).1,some (replicate codec base n.raft batch).2)) ∨
    n.answer codec batch = (n.raft,none) := by
  unfold ClusterNode.answer
  split
  · rename_i base _ pinned
    exact .inl ⟨base,pinned,rfl⟩
  · exact .inr rfl

variable [Host]

theorem recoverAt_covered {entryAt : Nat → Option LogEntry} {base : Nat} (indexes : List Nat) (e : Engine)
    (covered : ∀ index entry batch, entryAt index = some entry →
      decode codec entry.command = some (.write batch) → base + index ≤ e.storage.commitWatermark) :
    (recoverAt (decodeDatabase codec) entryAt base indexes e).1 = e := by
  induction indexes with
  | nil => rfl
  | cons index rest ih =>
    simp only [recoverAt]
    split
    · exact ih
    rename_i entry found
    split
    · rfl
    rename_i command decoded
    obtain ⟨read,known,rfl⟩ := Option.map_eq_some_iff.mp decoded
    have unmoved : e.applyCommand (.ok ()) (.ok ()) (toDatabase read) (base + index) = (e,.ok ()) := by
      cases read with
      | noop => rfl
      | schema command => exact command.elim
      | write batch =>
        have old := covered index entry batch found known
        simp [toDatabase,Engine.applyCommand,Engine.applyReplicatedBatch,old]
    simp only [unmoved]
    exact ih

/-- Indexes agree with the records, acknowledged batches are stored, and the log has no write above the
watermark. -/
structure Accounted (codec : EnvelopeCodec) (n : ClusterNode) (events : List NodeEvent) : Prop where
  sound : n.engine.Sound
  named : ∀ (c : String) schema, n.engine.storage.schemas[c]? = some schema → schema.name = c
  stored : ∀ c ts batch, (ts,batch) ∈ standing c events → n.engine.storage.Holds ts batch c
  logged : ∀ base, n.commitBase = some base → ∀ index entry batch, n.raft.storage.entryAt index = some entry →
    decode codec entry.command = some (.write batch) →
    base + index ≤ n.engine.storage.commitWatermark
  unlogged : n.commitBase = none → n.raft.storage.entries = []

theorem Accounted.create (accounted : Accounted codec n events) {schema : CollectionSchema}
    (fits : schema.validateDefinition = .ok () → n.engine.Fits schema) :
    Accounted codec { n with engine := (n.engine.createSchema (.ok ()) schema).1 } events := by
  have storage := storage_createSchema (.ok ()) schema n.engine
  refine ⟨createSchema_sound accounted.sound fits,?_,?_,?_,accounted.unlogged⟩
  · intro c schema' found
    simp only [storage,Storage.putSchema] at found
    split at found
    · exact accounted.named c schema' found
    · rcases Library.TreeMap.of_getElem?_insert found with ⟨rfl,rfl⟩ | ⟨-,before⟩
      · rfl
      · exact accounted.named c schema' before
  · intro c ts batch inside i value last
    simp only [storage]
    rw [Storage.chainOf_putSchema]
    exact accounted.stored c ts batch inside i value last
  · intro base pinned index entry batch found decoded
    simp only [storage,Storage.commitWatermark,Storage.lastCommitTs_putSchema]
    exact accounted.logged base pinned index entry batch found decoded

theorem Accounted.drop (accounted : Accounted codec n events) {name : String}
    (taken : n.step codec (.drop name) = some (n',now)) : Accounted codec n' (events ++ now) := by
  have sound := dropSchema_sound accounted.sound name
  have storage := (dropSchema_frame (.ok ()) (.ok ()) name n.engine).2
  simp only [ClusterNode.step] at taken
  split at taken
  · rename_i e dropped
    cases taken
    rw [dropped] at sound storage
    obtain ⟨mid,written,forgot⟩ := Storage.dropSchema_done (dropSchema_made (congrArg Prod.snd dropped))
    have storage : e.storage = mid.forgotten name := storage.trans forgot
    have kept : mid.schemas = n.engine.storage.schemas ∧ n.engine.storage.lastCommitTs ≤ mid.lastCommitTs := by
      rcases written with rfl | rfl
      · exact ⟨rfl,le_rfl⟩
      · exact ⟨rfl,Nat.le_succ _⟩
    refine ⟨sound,?_,?_,?_,accounted.unlogged⟩
    · intro c schema found
      simp only [storage,Storage.forgotten,kept.1] at found
      exact accounted.named c schema (Library.TreeMap.of_getElem?_erase found).2
    · intro c ts batch inside i value last
      rw [standing_dropped] at inside
      split at inside
      · cases inside
      rename_i other
      simp only [storage]
      rw [Storage.chainOf_dropped accounted.sound.storage written c i other]
      exact accounted.stored c ts batch inside i value last
    · intro base pinned index entry batch found decoded
      refine (accounted.logged base pinned index entry batch found decoded).trans ?_
      simp only [storage]
      exact kept.2
  · rename_i e err refused
    cases taken
    rw [refused] at sound storage
    have same : e.storage = n.engine.storage :=
      storage.trans (Storage.dropSchema_refused (dropSchema_failed (congrArg Prod.snd refused)))
    rw [List.append_nil]
    refine ⟨sound,?_,?_,?_,accounted.unlogged⟩
    all_goals simp only [same]
    · exact accounted.named
    · exact accounted.stored
    · exact accounted.logged

theorem Accounted.grow (accounted : Accounted codec n events) {e : Engine} {raft : RaftNode FileStorage} (sound : e.Sound)
    (schemas : e.storage.schemas = n.engine.storage.schemas)
    (chains : ∀ c i, ∀ v ∈ n.engine.storage.chainOf c i, v ∈ e.storage.chainOf c i)
    (logged : ∀ base, n.commitBase = some base → ∀ index entry batch, raft.storage.entryAt index = some entry →
      decode codec entry.command = some (.write batch) → base + index ≤ e.storage.commitWatermark)
    (unlogged : n.commitBase = none → raft.storage.entries = []) :
    Accounted codec { n with engine := e, raft := raft } events where
  sound := sound
  named := by
    simp only [schemas]
    exact accounted.named
  stored c ts batch inside i value last := chains c i _ (accounted.stored c ts batch inside i value last)
  logged := logged
  unlogged := unlogged

section
variable (accounted : Accounted codec n events)
include accounted

theorem Accounted.answer (batch : Batch) {s : Storage} {r : Result Nat}
    (done : n.engine.storage.commitThrough (n.answer codec batch).2 (.ok ()) batch = (s,r)) :
    (∀ base, n.commitBase = some base → ∀ index entry written, (n.answer codec batch).1.storage.entryAt index = some entry →
      decode codec entry.command = some (.write written) → base + index ≤ s.commitWatermark) ∧
      (n.commitBase = none → (n.answer codec batch).1.storage.entries = []) := by
  obtain ⟨-,-,later,assigned⟩ := Storage.commitThrough_grows accounted.sound.storage done
  rcases answer_cases codec n batch with ⟨base,pinned,asked⟩ | alone
  · obtain ⟨appends,accepted,refused⟩ := appends_replicate codec base n.raft batch
    rw [asked] at done ⊢
    refine ⟨?_,fun none => by rw [pinned] at none; cases none⟩
    intro base' same index entry written found decoded
    rw [pinned] at same
    cases same
    have covered (old : n.raft.storage.entryAt index = some entry) : base + index ≤ s.commitWatermark :=
      (accounted.logged base pinned index entry written old decoded).trans later
    rcases appends.entryAt found with old | ⟨here,-⟩
    · exact covered old
    · cases ended : (replicate codec base n.raft batch).2 with
      | ok ts =>
        have given := n.engine.storage.commitThrough_answered ts batch
        rw [ended] at done
        rw [done] at given
        have reached := (assigned ts given).1
        rw [accepted ts ended] at reached
        rw [here]
        exact reached
      | error e =>
        refine covered ?_
        rw [← found]
        simp only [entryAt,slot,appends.1,refused e ended]
  · rw [alone]
    exact ⟨fun base pinned index entry written found decoded =>
      (accounted.logged base pinned index entry written found decoded).trans later,accounted.unlogged⟩

theorem Accounted.request {q : Request}
    (advancing : Advancing n (.request q)) (taken : n.request codec q = some (n',now)) :
    Accounted codec n' (events ++ now) := by
  obtain ⟨apart,above⟩ := advancing
  unfold ClusterNode.request at taken
  split at taken
  · rename_i batch submitted
    obtain ⟨p,prepared,rfl⟩ := submit_prepared submitted
    have found : n.engine.prepare q = ((n.engine.prepare q).1,.ok (some p)) := Prod.ext rfl prepared
    have storage := storage_serveThrough found (n.answer codec p.batch).2 (.ok ())
    have newer (ts : Nat) (answered : (n.answer codec p.batch).2 = some (.ok ts)) :
        n.engine.storage.lastCommitTs < ts := by
      unfold ClusterNode.answer at answered
      split at answered
      · rename_i base attached pinned
        rw [(appends_replicate codec base n.raft p.batch).2.1 ts (Option.some.inj answered)]
        exact above p.batch base submitted attached pinned
      · cases answered
    have sound (e : Engine) (o : Outcome Unit)
        (done : n.engine.serveThrough (n.answer codec p.batch).2 (.ok ()) q = (e,o)) (calm : ∀ m, o ≠ .panic m) :=
      sound_serveThrough accounted.sound apart newer done calm
    rcases commits : n.engine.storage.commitThrough (n.answer codec p.batch).2 (.ok ()) p.batch with ⟨s,r⟩
    obtain ⟨chains,schemas,later,assigned⟩ := Storage.commitThrough_grows accounted.sound.storage commits
    obtain ⟨logged,unlogged⟩ := accounted.answer p.batch commits
    dsimp only at taken
    split at taken
    · rename_i e ts served given
      cases taken
      rw [commits] at given storage
      rw [served] at storage
      subst storage
      have grown := accounted.grow (sound e _ served (by simp)) schemas chains logged unlogged
      refine { grown with stored := ?_ }
      intro c ts' batch' inside
      rw [standing_acknowledged] at inside
      rcases List.mem_append.mp inside with old | new
      · exact grown.stored c ts' batch' old
      · cases List.mem_singleton.mp new
        exact (assigned ts given).2 (newer ts) c
    · rename_i e err served
      cases taken
      rw [commits,served] at storage
      subst storage
      rw [List.append_nil]
      exact accounted.grow (sound e _ served (by simp)) schemas chains logged unlogged
    · cases taken
  · rename_i unsubmitted
    have none (batch : Batch) : n.engine.submit q ≠ .ok (some batch) := unsubmitted batch
    have storage := storage_unsubmitted none Option.none (.ok ())
    split at taken
    · cases taken
    rename_i e o calm served
    cases taken
    rw [served] at storage
    have storage : e.storage = n.engine.storage := storage
    have sound := sound_serveThrough accounted.sound apart (by simp) served (by
      rintro m rfl
      exact calm m rfl)
    rw [List.append_nil]
    refine accounted.grow sound (by rw [storage]) (by simp [storage]) ?_ accounted.unlogged
    simp only [storage]
    exact accounted.logged

theorem Accounted.restart {cluster : Bool} {options : EngineOptions}
    {stats : PlannerStats} (taken : n.restart codec cluster options stats = some n') : Accounted codec n' events := by
  unfold ClusterNode.restart at taken
  split at taken
  · cases taken
  rename_i e opened
  have storage := storage_openWith opened
  have sound := openWith_sound accounted.sound.storage options stats accounted.named opened
  have reopened : Accounted codec { n with engine := e } events := by
    refine accounted.grow sound (by rw [storage]) (by simp [storage]) ?_ accounted.unlogged
    simp only [storage]
    exact accounted.logged
  split at taken
  swap
  · cases taken
    exact { reopened with }
  unfold ClusterNode.bootstrap at taken
  dsimp only at taken
  split at taken
  swap
  · cases taken
  rename_i after done
  cases taken
  have appends : Appends .noop n.raft.storage
      (RaftNode.new n.raft.config n.raft.storage).campaign.takeCommitted.1.storage := appends_campaign _
  -- the log has the writes of earlier starts, all of them covered, and no-ops
  have logged : ∀ index entry batch,
      (RaftNode.new n.raft.config n.raft.storage).campaign.takeCommitted.1.storage.entryAt index = some entry →
      decode codec entry.command = some (.write batch) →
      loadOrInitCommitBase ⟨e.storage,n.commitBase⟩ + index ≤ e.storage.commitWatermark := by
    intro index entry batch found decoded
    rcases appends.entryAt found with old | ⟨-,noop⟩
    · cases pinned : n.commitBase with
      | none =>
        have empty := accounted.unlogged pinned
        simp [entryAt,slot,empty] at old
      | some base => exact reopened.logged base pinned index entry batch old decoded
    · rw [noop] at decoded
      cases decoded
  have unmoved := recoverAt_covered (List.range' 1
    (RaftNode.new n.raft.config n.raft.storage).campaign.takeCommitted.1.commitIndex) e logged
  have same : after = e := (congrArg Prod.fst done).symm.trans unmoved
  subst same
  refine { reopened with logged := ?_, unlogged := by simp }
  intro base pinned
  cases pinned
  exact logged

theorem Accounted.step {act : NodeAct} (advancing : Advancing n act)
    (taken : n.step codec act = some (n',now)) : Accounted codec n' (events ++ now) := by
  cases act with
  | create schema =>
    cases taken
    rw [List.append_nil]
    exact accounted.create advancing
  | drop name => exact accounted.drop taken
  | request q => exact accounted.request advancing taken
  | restart cluster options stats =>
    obtain ⟨next,done,same⟩ := Option.map_eq_some_iff.mp taken
    cases same
    rw [List.append_nil]
    exact accounted.restart done

end

end Runs

/-- As long as the log answers above the watermark: what was acknowledged is stored at its timestamp until its
collection is dropped, and the indexes agree with the records. -/
theorem acknowledged_stored [Host] (codec : EnvelopeCodec) (id : NodeId) {engine : Engine} (sound : engine.Sound)
    (named : ∀ (c : String) schema, engine.storage.schemas[c]? = some schema → schema.name = c)
    {events : List NodeEvent} {n : ClusterNode}
    (run : Library.Run (ClusterNode.step codec) (Advancing) (.start id engine) events n) :
    n.engine.Sound ∧ ∀ c ts batch, (ts,batch) ∈ standing c events → n.engine.storage.Holds ts batch c := by
  have started : Accounted codec (.start id engine) [] :=
    ⟨sound,named,by simp [standing],by simp [ClusterNode.start],fun _ => rfl⟩
  have accounted := run.invariant (fun events n => Accounted codec n events) started
    (fun _ _ _ _ _ accounted advancing taken => accounted.step advancing taken)
  exact ⟨accounted.sound,accounted.stored⟩

def noteNode : ClusterNode := .start 1 (System.fresh System.notes ⟨60,1⟩).engine

def noteRequest (pk : String) : Request := .mutate (.insert "notes" [("id",.text pk),("email",.text "x")])

def writeNote (pk : String) : NodeAct := .request (noteRequest pk)

theorem noteNode_named (c : String) (schema : CollectionSchema)
    (found : (System.fresh System.notes ⟨60,1⟩).engine.storage.schemas[c]? = some schema) : schema.name = c := by
  simp only [System.fresh,Library.TreeMap.getElem?_insert_eq] at found
  split at found
  · rename_i same
    cases found
    exact same
  · simp at found

abbrev StandsNote (pk : String) (ts : Nat) (events : List NodeEvent) : Prop :=
  ∃ ack ∈ standing "notes" events, ack.1 = ts ∧ (lastWrite ack.2.ops "notes" (System.noteId pk)).isSome = true

def advances (n : ClusterNode) : NodeAct → Bool
  | .request _ => n.commitBase.all (fun base => n.engine.storage.commitWatermark < base + (n.raft.storage.lastIndex + 1))
  | _ => true

/-- What the node logs for its first note. -/
def loggedNote : Batch :=
  match @submit plainHost noteNode.engine (noteRequest "a") with
  | .ok (some batch) => batch
  | _ => ⟨0,[]⟩

def loggedCodec : EnvelopeCodec := numbering (fun _ => 0) (fun _ => loggedNote)

theorem acknowledged_stored_note : ∃ events n batch value,
    Library.Run (@ClusterNode.step plainHost loggedCodec) (@Advancing plainHost) noteNode events n ∧
    (2,batch) ∈ standing "notes" events ∧ lastWrite batch.ops "notes" (System.noteId "a") = some value ∧
    ⟨2,value⟩ ∈ n.engine.storage.chainOf "notes" (System.noteId "a") ∧ @Engine.Sound plainHost n.engine := by
  obtain ⟨n,events,run,⟨ts,batch⟩,inside,rfl,wrote⟩ := @Library.Run.exists_of_guarded _ _ _
    (@ClusterNode.step plainHost loggedCodec) (@Advancing plainHost)
    [.restart true ⟨60,1⟩ ∅,writeNote "a",.restart true ⟨60,1⟩ ∅] noteNode advances
    (fun _ events => StandsNote "a" 2 events) (by decide +kernel) (by
      intro n act inside passed
      simp only [List.mem_cons,List.not_mem_nil,or_false] at inside
      rcases inside with rfl | rfl | rfl
      · trivial
      · refine ⟨trivial,?_⟩
        intro batch base _ _ pinned
        simpa [writeNote,advances,pinned] using passed
      · trivial)
  obtain ⟨value,last⟩ := Option.isSome_iff_exists.mp wrote
  have sound := @System.Started.sound plainHost _ (@System.fresh_started plainHost System.notes ⟨60,1⟩)
  obtain ⟨kept,stored⟩ := @acknowledged_stored plainHost loggedCodec 1 _ sound noteNode_named events n run
  exact ⟨events,n,batch,value,run,inside,last,stored "notes" 2 batch inside _ value last,kept⟩

/-- A drop tombstones the note at a timestamp of its own; the next write gets the same one from the log and is
not stored. -/
theorem acknowledged_not_stored : ∃ events n batch value,
    Library.Run (@ClusterNode.step plainHost itemCodec) (fun _ _ => True) noteNode events n ∧
    (3,batch) ∈ standing "notes" events ∧ lastWrite batch.ops "notes" (System.noteId "b") = some value ∧
    n.engine.storage.chainOf "notes" (System.noteId "b") = [] := by
  obtain ⟨n,events,run,⟨⟨ts,batch⟩,inside,rfl,wrote⟩,empty⟩ :=
    Library.Run.exists_free (@ClusterNode.step plainHost itemCodec)
    [.restart true ⟨60,1⟩ ∅,writeNote "a",.drop "notes",.create System.notes,writeNote "b"] noteNode
    (fun n events => StandsNote "b" 3 events ∧ n.engine.storage.chainOf "notes" (System.noteId "b") = [])
    (by decide +kernel)
  obtain ⟨value,last⟩ := Option.isSome_iff_exists.mp wrote
  exact ⟨events,n,batch,value,run,inside,last,empty⟩

end AuraDb.Replication
