import AuraDb.Raft.Advance
import AuraDb.Storage.Memory

/-! The peers of a multi-node deployment: each runs a Raft node, one driver that steps it and applies what is
committed, and the engine's writer, which proposes a batch and waits for the published commit index. A waiting
writer holds the engine's lock, so the driver applies writes only between writers. Logs are not compacted and
file operations succeed. -/
namespace AuraDb.Replication
open Std Raft RaftStorage
section
/-- The peers propose batches alone. -/
abbrev WriteCommand := ReplicatedCommand Empty

structure CommandEnvelope where
  version : Nat
  command : WriteCommand

structure EnvelopeCodec where
  toVec : CommandEnvelope → List UInt8
  fromSlice : List UInt8 → Option CommandEnvelope

namespace ReplicatedCommand

def envelopeVersion : Nat := 1

def kind : WriteCommand → CommandKind
  | .noop => .noop
  | .write _ => .database

def encode (codec : EnvelopeCodec) (command : WriteCommand) : Command :=
  .new (kind command) (codec.toVec ⟨envelopeVersion,command⟩)

def decode (codec : EnvelopeCodec) (command : Command) : Option WriteCommand :=
  if command.kind = .noop ∧ command.payload.isEmpty then some .noop else
  match codec.fromSlice command.payload with
  | none => none
  | some envelope => if envelope.version > envelopeVersion then none else some envelope.command

end ReplicatedCommand

def applyCommand (engine : Storage) (command : WriteCommand) (logIndex : Nat) : Storage :=
  match command with
  | .noop => engine
  | .write batch => (engine.applyCommittedBatch (.ok ()) batch logIndex).1

structure CommitState where
  commitIndex : Nat := 0
  term : Nat := 0
  isLeader : Bool := false
  deriving DecidableEq, Repr

structure Waiting where
  index : Nat
  term : Nat
  batch : Batch
  deriving DecidableEq, Repr

/-- What a peer has beside its Raft node. The driver has yet to apply the pending
entries. -/
structure Peer where
  engine : Storage
  commitTsBase : Nat
  commitState : CommitState := {}
  pending : List LogEntry := []
  writer : Option Waiting := none

inductive ReplicateError where
  | notLeader (leader : Option NodeId)
  | raft (error : RaftError)
  | lostLeadership
  | timedOut
  deriving DecidableEq, Repr

/-- What `replicate` returned; for a success with what was proposed and the published state that ended the wait.
-/
inductive Reply where
  | acknowledged (id : NodeId) (ts : Nat) (proposal : Waiting) (published : CommitState)
  | refused (id : NodeId) (error : ReplicateError)
  deriving DecidableEq, Repr

inductive DriveEvent where
  | tick
  | inbound (sender : NodeId) (message : Message)

structure Turn (S : Type) where
  node : RaftNode S
  host : Peer
  outbox : List Envelope := []
  replies : List Reply := []

variable {S : Type} [RaftStorage S]

def react (n : RaftNode S) : DriveEvent → RaftNode S
  | .tick => n.tick
  | .inbound sender message => (n.step sender message).1

/-- The driver steps its node, publishes the outcome and turns to the entries to apply. -/
def drive (event : DriveEvent) (n : RaftNode S) (h : Peer) : Option (Turn S) :=
  if h.pending.isEmpty then
    let (n,outbox) := (react n event).takeMessages
    let (n,committed) := n.takeCommitted
    let state := ⟨n.commitIndex,n.term,n.isLeader⟩
    some { node := n, host := { h with commitState := state, pending := committed }, outbox := outbox }
  else none

/-- The driver applies the next committed entry; one it cannot decode it leaves out. -/
def applyNext (codec : EnvelopeCodec) (n : RaftNode S) (h : Peer) : Option (Turn S) :=
  match h.pending with
  | [] => none
  | entry::rest => match ReplicatedCommand.decode codec entry.command with
    | some (.write batch) =>
      if h.writer.isSome then none else
      let engine := applyCommand h.engine (.write batch) (h.commitTsBase + entry.index)
      some { node := n, host := { h with engine := engine, pending := rest } }
    | _ => some { node := n, host := { h with pending := rest } }

def Peer.refuse (h : Peer) (id : NodeId) (n : RaftNode S) (error : ReplicateError) : Turn S :=
  { node := n, host := { h with writer := none }, replies := [.refused id error] }

/-- The first half of `replicate`: the leader proposes the batch. -/
def propose (codec : EnvelopeCodec) (id : NodeId) (batch : Batch) (n : RaftNode S) (h : Peer) : Option (Turn S) :=
  if h.writer.isSome then none else
  if n.role ≠ .leader then some (h.refuse id n (.notLeader n.leaderId)) else
  match n.propose (ReplicatedCommand.encode codec (.write batch)) with
  | (n,.error e) => some (h.refuse id n (.raft e))
  | (n,.ok index) => some { node := n, host := { h with writer := some ⟨index,n.term,batch⟩ } }

def CommitState.lost (state : CommitState) (w : Waiting) : Bool :=
  !state.isLeader || decide (state.term > w.term)

/-- The writer looks at the published state. Once its index is committed, the batch is applied on the way out.
-/
def wake (id : NodeId) (n : RaftNode S) (h : Peer) : Option (Turn S) :=
  match h.writer with
  | none => none
  | some w =>
    if w.index ≤ h.commitState.commitIndex then
      let ts := h.commitTsBase + w.index
      let engine := (h.engine.applyCommittedBatch (.ok ()) w.batch ts).1
      some { node := n, host := { h with engine := engine, writer := none },
             replies := [.acknowledged id ts w h.commitState] }
    else if h.commitState.lost w then some (h.refuse id n .lostLeadership)
    else none

def timeout (id : NodeId) (n : RaftNode S) (h : Peer) : Option (Turn S) :=
  match h.writer with
  | none => none
  | some w =>
    if w.index ≤ h.commitState.commitIndex then none else
    some (h.refuse id n (if h.commitState.lost w then .lostLeadership else .timedOut))

/-- All that is committed on disk is applied again, and an entry that cannot be decoded stops the start. -/
def restart (codec : EnvelopeCodec) (n : RaftNode S) (h : Peer) : Option (Turn S) :=
  let n := RaftNode.new n.config n.storage
  let entries := (List.range' 1 n.commitIndex).filterMap (entryAt n.storage)
  if entries.all (fun e => (ReplicatedCommand.decode codec e.command).isSome) then
    some { node := n, host := { h with commitState := {}, pending := entries, writer := none } }
  else none

structure DataDirectory where
  engine : Storage
  commitBase : Option Nat

def loadOrInitCommitBase (data : DataDirectory) : Nat := data.commitBase.getD data.engine.commitWatermark

structure Peers (S : Type) where
  cluster : Cluster S
  hosts : ExtTreeMap NodeId Peer compare

inductive PeerAct where
  | tick (id : NodeId)
  | deliver (position : Nat)
  | applyNext (id : NodeId)
  | propose (id : NodeId) (batch : Batch)
  | wake (id : NodeId)
  | timeout (id : NodeId)
  | campaign (id : NodeId)
  | restart (id : NodeId)

namespace Peers

def turn (p : Peers S) (id : NodeId) (f : RaftNode S → Peer → Option (Turn S)) : Option (Peers S × List Reply) :=
  match p.cluster.nodes[id]?, p.hosts[id]? with
  | some n, some h => (f n h).map (fun t =>
      ({ cluster :=
           { nodes := p.cluster.nodes.insert id t.node
             sent := p.cluster.sent ++ t.outbox.map (fun e => ⟨id,e.recipient,e.message⟩) }
         hosts := p.hosts.insert id t.host },t.replies))
  | _, _ => none

def step (codec : EnvelopeCodec) (p : Peers S) : PeerAct → Option (Peers S × List Reply)
  | .tick id => p.turn id (drive .tick)
  | .deliver position => match p.cluster.sent[position]? with
    | none => none
    | some packet => p.turn packet.recipient (drive (.inbound packet.sender packet.message))
  | .applyNext id => p.turn id (Replication.applyNext codec)
  | .propose id batch => p.turn id (Replication.propose codec id batch)
  | .wake id => p.turn id (Replication.wake id)
  | .timeout id => p.turn id (Replication.timeout id)
  | .campaign id => p.turn id (fun n h => some { node := n.campaign, host := h })
  | .restart id => p.turn id (Replication.restart codec)

/-- Every peer joins with a data directory of its own. -/
def join (voters : List NodeId) (config : NodeId → RaftConfig) (storage : NodeId → S)
    (data : NodeId → DataDirectory) : Peers S where
  cluster := .start voters config storage
  hosts := voters.foldl (fun hosts id => hosts.insert id
    { engine := (data id).engine, commitTsBase := loadOrInitCommitBase (data id) }) ∅

/-- No base is pinned yet, so the watermark of each engine is the base of its commit timestamps. -/
def start (voters : List NodeId) (config : NodeId → RaftConfig) (storage : NodeId → S)
    (engine : NodeId → Storage) : Peers S :=
  join voters config storage fun id => ⟨engine id,none⟩

end Peers

end

/-! What one action of one peer can do. A property of every peer that such actions keep holds along every run.
-/
open LawfulRaftStorage Library.Consensus

def Reply.peer : Reply → NodeId
  | .acknowledged id .. => id
  | .refused id _ => id

variable {S : Type} {P : History → List Reply → NodeId → RaftNode S → Peer → Prop}
  {Q : History → NodeId → RaftNode S → Peer → Prop}

def Stable (P : History → List Reply → NodeId → RaftNode S → Peer → Prop) : Prop :=
  ∀ g g' shown replies id other n h, Local id g g' → other ≠ id → (∀ r ∈ replies, r.peer = id) →
    P g shown other n h → P g' (shown ++ replies) other n h

theorem Stable.and (stable : Stable P) (beside : ∀ g g' id n h, Grows g g' → Q g id n h → Q g' id n h) :
    Stable (fun g shown id n h => P g shown id n h ∧ Q g id n h) := by
  rintro g g' shown replies id other n h moved different theirs ⟨first,second⟩
  exact ⟨stable g g' shown replies id other n h moved different theirs first,
    beside g g' other n h moved.toGrows second⟩

variable [RaftStorage S] [LawfulRaftStorage S] {id : NodeId} {n : RaftNode S} {codec : EnvelopeCodec}
  {cut : Prop} {g : History} {f : RaftNode S → Peer → Option (Turn S)} {g' : History}

structure Moved (voters : List NodeId) (cut : Prop) (g g' : History) (id : NodeId) (n n' : RaftNode S) : Prop where
  moved : Local id g g'
  tracked : Raft.Tracked voters cut g' id n'
  forward : n.commitIndex ≤ n'.commitIndex

section Moves
variable {voters : List NodeId} {n' : RaftNode S}

theorem Moved.refl (tracked : Raft.Tracked voters cut g id n) : Moved voters cut g g id n n :=
  ⟨.refl id g,tracked,le_rfl⟩

theorem Moved.kept (moved : Moved voters cut g g' id n n') (before : Raft.Tracked voters cut g id n) {k : Nat}
    (le : k ≤ n.commitIndex) : (g'.log id).take k = (g.log id).take k := by
  have old := before.committed.mono moved.moved.toGrows le_rfl
  have new := moved.tracked.committed
  have bound := before.bound
  have bound' := moved.tracked.bound
  have forward := moved.forward
  have inside : (g.log id).take n.commitIndex <+: (g'.log id).take n'.commitIndex := by
    rcases old.total moved.tracked.inv new with short | long
    · exact short
    · have length := long.length_le
      rw [List.length_take_of_le bound,List.length_take_of_le bound'] at length
      rw [long.eq_of_length (by rw [List.length_take_of_le bound,List.length_take_of_le bound']; omega)]
  have same := List.prefix_iff_eq_take.mp inside
  rw [List.length_take_of_le bound,List.take_take,Nat.min_eq_left forward] at same
  have shorter := congrArg (List.take k) same
  rw [List.take_take,List.take_take,Nat.min_eq_left le] at shorter
  exact shorter.symm

/-- What the driver hands to its node comes from a member, says nothing false and has no
gap. -/
def Heard (voters : List NodeId) (cut : Prop) (g : History) (id : NodeId) : DriveEvent → Prop
  | .tick => True
  | .inbound sender message => sender ∈ voters ∧ Told voters cut g sender id message ∧ Whole message

section
variable (tracked : Raft.Tracked voters cut g id n)
include tracked

theorem moved_react {event : DriveEvent}
    (heard : Heard voters cut g id event) : ∃ g', Moved voters cut g g' id n (react n event) ∧
      (react n event).lastApplied = n.lastApplied := by
  cases event with
  | tick =>
    obtain ⟨g',moved,ticked⟩ := tracked.tick
    have advances := RaftNode.advances_tick n
    exact ⟨g',⟨moved,ticked,advances.commit⟩,advances.applied⟩
  | inbound sender message =>
    obtain ⟨member,told,whole⟩ := heard
    obtain ⟨g',moved,stepped,agreed⟩ := tracked.step member told whole
    have advances := RaftNode.advances_step n sender message
      (fun _ _ _ _ _ same => (agreed _ _ _ _ _ same).forward)
    exact ⟨g',⟨moved,stepped,advances.commit⟩,advances.applied⟩

theorem moved_campaign : ∃ g', Moved voters cut g g' id n n.campaign ∧
    n.campaign.lastApplied = n.lastApplied ∧ base n.campaign.storage = base n.storage := by
  obtain ⟨g',moved,stands⟩ := tracked.campaign
  have advances := RaftNode.advances_campaign n
  exact ⟨g',⟨moved,stands,advances.commit⟩,advances.applied,tracked.base_campaign⟩

theorem moved_restart : Moved voters cut g g id n (RaftNode.new n.config n.storage) :=
  ⟨.refl id g,tracked.restart,Nat.le_of_eq tracked.saved.symm⟩

theorem moved_propose (role : n.role = .leader) (command : Command) :
    ∃ g' n', n.propose command = (n',.ok ((g.log id).length + 1)) ∧ Moved voters cut g g' id n n' ∧
      n'.lastApplied = n.lastApplied ∧ base n'.storage = base n.storage ∧ g'.lead n'.term = some id ∧
      g'.leaderLog n'.term = g.log id ++ [⟨n'.term,(g.log id).length + 1,command⟩] := by
  obtain ⟨ok,g',moved,sameTerm,longer,grown⟩ := tracked.appendOwn role command
  have advances := RaftNode.advances_appendOwn n command
  have leads := (RaftNode.keeps_appendOwn n command).role.trans role
  obtain ⟨lead,own,-,-⟩ := grown.leader leads
  have proposed : n.propose command = n.appendOwn command := by simp [RaftNode.propose,role]
  refine ⟨g',(n.appendOwn command).1,proposed.trans (Prod.ext rfl ok),⟨moved,grown,advances.commit⟩,
    advances.applied,tracked.base_appendOwn command,?_,?_⟩
  · rw [grown.term]
    exact lead
  · rw [grown.term,own,longer,sameTerm]

end

end Moves

structure Taken (voters : List NodeId) (cut : Prop) (g g' : History) (id : NodeId) (n : RaftNode S) (t : Turn S) : Prop
    extends Moved voters cut g g' id n t.node where
  told : ∀ e ∈ t.outbox, Told voters cut g' id e.recipient e.message
  replies : ∀ r ∈ t.replies, r.peer = id

theorem Moved.taken {voters : List NodeId} {g' : History} {t : Turn S}
    (moved : Moved voters cut g g' id n t.node) (quiet : t.outbox = []) (replies : ∀ r ∈ t.replies, r.peer = id) :
    Taken voters cut g g' id n t where
  toMoved := moved
  told e inside := by simp [quiet] at inside
  replies := replies

section Specs
variable {voters : List NodeId} {h : Peer} {t : Turn S}

def Cleared (s : S) : Prop := ∀ i, 0 < i → i ≤ base s → entryAt s i = none

theorem cleared_file (s : FileStorage) : Cleared s := by
  intro i _ below
  have low : i ≤ s.baseIndex := below
  change s.entryAt i = none
  rw [FileStorage.entryAt,FileStorage.slot,if_pos low]
  rfl

theorem uncompacted (tracked : Raft.Tracked voters False g id n) : base n.storage = 0 := by
  by_contra cut
  exact tracked.applied.2 (Nat.pos_of_ne_zero cut)

theorem cleared_of_uncompacted (tracked : Raft.Tracked voters False g id n) : Cleared n.storage := by
  intro i positive below
  rw [uncompacted tracked] at below
  omega

section
variable {s : S} {log : List LogEntry} (holds : Holds s log)
include holds

theorem filterMap_entryAt (count low : Nat) (above : base s ≤ low) (le : low + count ≤ log.length) :
    (List.range' (low + 1) count).filterMap (entryAt s) = (log.take (low + count)).drop low := by
  induction count generalizing low with
  | zero => simp
  | succ count ih =>
    have inside : low < (log.take (low + (count + 1))).length := by
      rw [List.length_take_of_le le]
      omega
    have found : entryAt s (low + 1) = some ((log.take (low + (count + 1)))[low]) := by
      rw [entryAt_eq holds (by omega),Nat.add_sub_cancel,List.getElem_take]
      exact List.getElem?_eq_getElem (by omega)
    rw [List.range'_succ,List.filterMap_cons_some found,ih (low + 1) (by omega) (by omega),List.drop_eq_getElem_cons inside]
    have same : low + 1 + count = low + (count + 1) := by omega
    rw [same]

theorem entries_upto (cleared : Cleared s) {commit : Nat} (low : base s ≤ commit) (bound : commit ≤ log.length) :
    (List.range' 1 commit).filterMap (entryAt s) = (log.take commit).drop (base s) := by
  have whole : commit = base s + (commit - base s) := by omega
  have cut : (List.range' 1 (base s)).filterMap (entryAt s) = [] := by
    rw [List.filterMap_eq_nil_iff]
    intro i inside
    rw [List.mem_range'_1] at inside
    exact cleared i (by omega) (by omega)
  have range := filterMap_entryAt holds (commit - base s) (base s) le_rfl (by omega)
  rw [← whole] at range
  rw [whole,← List.range'_append_1,List.filterMap_append,cut,List.nil_append,← whole,Nat.add_comm 1]
  exact range

end

section
variable {event : DriveEvent} (tracked : Raft.Tracked voters cut g id n) (heard : Heard voters cut g id event)
  (within : n.lastApplied ≤ n.commitIndex)
include tracked heard within

theorem moved_drive : ∃ g', Moved voters cut g g' id n (react n event).takeMessages.1.takeCommitted.1 ∧
      (∀ e ∈ (react n event).outbox, Told voters cut g' id e.recipient e.message) ∧
      base (react n event).storage ≤ n.lastApplied ∧ (react n event).takeMessages.1.takeCommitted.2 =
        ((g'.log id).take (react n event).commitIndex).drop n.lastApplied := by
  obtain ⟨g',moved,applied⟩ := moved_react tracked heard
  have emptied : Raft.Tracked voters cut g' id { react n event with
      outbox := [], lastApplied := (react n event).commitIndex } :=
    ⟨{ moved.tracked.toMirrors with
        outbox := by simp
        applied := ⟨moved.tracked.base,moved.tracked.applied.2⟩ },moved.tracked.inv,moved.tracked.numbered⟩
  have low : base (react n event).storage ≤ n.lastApplied := applied ▸ moved.tracked.applied.1
  refine ⟨g',⟨moved.moved,emptied,moved.forward⟩,moved.tracked.outbox,low,?_⟩
  have bound := moved.tracked.bound
  have forward := moved.forward
  have range := filterMap_entryAt moved.tracked.holds ((react n event).commitIndex - n.lastApplied) n.lastApplied
    low (by omega)
  have whole : n.lastApplied + ((react n event).commitIndex - n.lastApplied) = (react n event).commitIndex := by
    omega
  rw [whole] at range
  simp only [RaftNode.takeCommitted,RaftNode.takeMessages,applied,range]

theorem drive_spec (taken : drive event n h = some t) :
    h.pending = [] ∧ ∃ g', Taken voters cut g g' id n t ∧ t.replies = [] ∧
      t.node.lastApplied = t.node.commitIndex ∧ base t.node.storage ≤ n.lastApplied ∧ t.host = { h with
        commitState := ⟨t.node.commitIndex,t.node.term,t.node.isLeader⟩
        pending := ((g'.log id).take t.node.commitIndex).drop n.lastApplied } := by
  unfold drive at taken
  split at taken
  swap
  · cases taken
  rename_i idle
  cases taken
  obtain ⟨g',moved,told,low,committed⟩ := moved_drive tracked heard within
  refine ⟨List.isEmpty_iff.mp idle,g',⟨moved,told,by simp⟩,rfl,rfl,low,?_⟩
  exact congrArg (fun pending => Peer.mk h.engine h.commitTsBase _ pending h.writer) committed

end

def applyEntry (codec : EnvelopeCodec) (base : Nat) (engine : Storage) (e : LogEntry) : Storage :=
  match ReplicatedCommand.decode codec e.command with
  | some command => applyCommand engine command (base + e.index)
  | none => engine

def isWrite (codec : EnvelopeCodec) (e : LogEntry) : Prop :=
  ∃ batch, ReplicatedCommand.decode codec e.command = some (.write batch)

instance (codec : EnvelopeCodec) (e : LogEntry) : Decidable (isWrite codec e) :=
  match read : ReplicatedCommand.decode codec e.command with
  | some (.write batch) => .isTrue ⟨batch,read⟩
  | some .noop => .isFalse (by simp [isWrite,read])
  | none => .isFalse (by simp [isWrite,read])

theorem applyEntry_other {e : LogEntry} (other : ¬ isWrite codec e) (base : Nat)
    (engine : Storage) : applyEntry codec base engine e = engine := by
  unfold applyEntry
  cases read : ReplicatedCommand.decode codec e.command with
  | none => rfl
  | some command =>
    cases command with
    | noop => rfl
    | schema command => exact command.elim
    | write batch => exact absurd ⟨batch,read⟩ other

section
variable (tracked : Raft.Tracked voters cut g id n)
include tracked

theorem applyNext_spec
    (taken : applyNext codec n h = some t) : Taken voters cut g g id n t ∧ t.node = n ∧ t.replies = [] ∧
      ∃ entry rest, h.pending = entry::rest ∧ (isWrite codec entry → h.writer = none) ∧
        t.host = { h with engine := applyEntry codec h.commitTsBase h.engine entry, pending := rest } := by
  unfold applyNext at taken
  split at taken
  · cases taken
  rename_i entry rest waiting
  split at taken
  · rename_i batch read
    split at taken
    · cases taken
    rename_i free
    cases taken
    refine ⟨(Moved.refl tracked).taken rfl (by simp),rfl,rfl,entry,rest,waiting,fun _ => ?_,?_⟩
    · simpa using free
    · simp only [applyEntry,read]
  · rename_i other
    cases taken
    have skipped : ¬ isWrite codec entry := fun ⟨batch,read⟩ => other batch read
    refine ⟨(Moved.refl tracked).taken rfl (by simp),rfl,rfl,entry,rest,waiting,fun is => absurd is skipped,?_⟩
    rw [applyEntry_other skipped]

theorem propose_spec {batch : Batch}
    (taken : propose codec id batch n h = some t) : h.writer = none ∧ ∃ g', Taken voters cut g g' id n t ∧
      t.node.lastApplied = n.lastApplied ∧ base t.node.storage = base n.storage ∧
      (∀ ts w state, .acknowledged id ts w state ∉ t.replies) ∧
      (t.host = h ∨ ∃ w : Waiting, n.role = .leader ∧ t.host = { h with writer := some w } ∧ w.batch = batch ∧
        w.index = (g.log id).length + 1 ∧ g'.lead w.term = some id ∧
        g'.leaderLog w.term = g.log id ++ [⟨w.term,w.index,ReplicatedCommand.encode codec (.write batch)⟩]) := by
  unfold propose at taken
  split at taken
  · cases taken
  rename_i free
  have none : h.writer = none := by simpa using free
  have unchanged : { h with writer := Option.none } = h := by rw [← none]
  refine ⟨none,?_⟩
  split at taken
  · cases taken
    exact ⟨g,(Moved.refl tracked).taken rfl (by simp [Peer.refuse,Reply.peer]),rfl,rfl,by simp [Peer.refuse],
      .inl unchanged⟩
  rename_i role
  obtain ⟨g',n',ok,moved,applied,boundary,lead,own⟩ :=
    moved_propose tracked (not_not.mp role) (ReplicatedCommand.encode codec (.write batch))
  rw [ok] at taken
  cases taken
  exact ⟨g',moved.taken rfl (by simp),applied,boundary,by simp,.inr ⟨_,not_not.mp role,rfl,rfl,rfl,lead,own⟩⟩

theorem refuse_spec (error : ReplicateError) : Taken voters cut g g id n (h.refuse id n error) :=
  (Moved.refl tracked).taken rfl (by simp [Peer.refuse,Reply.peer])

theorem wake_spec (taken : wake id n h = some t) :
    Taken voters cut g g id n t ∧ t.node = n ∧ ((∃ error, t = h.refuse id n error) ∨
      ∃ w, h.writer = some w ∧ w.index ≤ h.commitState.commitIndex ∧
        t.replies = [.acknowledged id (h.commitTsBase + w.index) w h.commitState] ∧
        t.host = { h with
          engine := applyCommand h.engine (.write w.batch) (h.commitTsBase + w.index), writer := none }) := by
  unfold wake at taken
  split at taken
  · cases taken
  rename_i w waits
  split at taken
  · rename_i reached
    cases taken
    exact ⟨(Moved.refl tracked).taken rfl (by simp [Reply.peer]),rfl,.inr ⟨w,waits,reached,rfl,rfl⟩⟩
  · split at taken
    · cases taken
      exact ⟨refuse_spec tracked _,rfl,.inl ⟨_,rfl⟩⟩
    · cases taken

theorem timeout_spec (taken : timeout id n h = some t) :
    Taken voters cut g g id n t ∧ ∃ error, t = h.refuse id n error := by
  unfold timeout at taken
  split at taken
  · cases taken
  split at taken
  · cases taken
  · cases taken
    exact ⟨refuse_spec tracked _,_,rfl⟩

theorem retained_entries (cleared : Cleared n.storage) : (List.range' 1 n.commitIndex).filterMap (entryAt n.storage) =
      ((g.log id).take n.commitIndex).drop (base n.storage) :=
  entries_upto tracked.holds cleared tracked.base tracked.bound

theorem restart_spec (cleared : Cleared n.storage)
    (taken : restart codec n h = some t) : Taken voters cut g g id n t ∧ t.replies = [] ∧
      t.node.lastApplied = t.node.commitIndex ∧ base t.node.storage = base n.storage ∧ t.host = { h with
        commitState := {}, pending := ((g.log id).take t.node.commitIndex).drop (base n.storage), writer := none } := by
  have moved := moved_restart tracked
  unfold restart at taken
  simp only at taken
  split at taken
  · cases taken
    refine ⟨moved.taken rfl (by simp),rfl,rfl,rfl,?_⟩
    have range := retained_entries moved.tracked cleared
    exact congrArg (fun pending => Peer.mk h.engine h.commitTsBase {} pending none) range
  · cases taken

end

end Specs

structure Along (voters : List NodeId) (cut : Prop) (P : History → List Reply → NodeId → RaftNode S → Peer → Prop)
    (g : History) (shown : List Reply) (p : Peers S) : Prop where
  held : Simulated voters cut g [] p.cluster
  known : ∀ r ∈ shown, ∃ n h, p.cluster.nodes[r.peer]? = some n ∧ p.hosts[r.peer]? = some h
  peer : ∀ (id : NodeId) (n : RaftNode S) (h : Peer), p.cluster.nodes[id]? = some n → p.hosts[id]? = some h →
    P g shown id n h

def Kept (voters : List NodeId) (cut : Prop) (P : History → List Reply → NodeId → RaftNode S → Peer → Prop)
    (g : History) (shown : List Reply) (id : NodeId) (f : RaftNode S → Peer → Option (Turn S)) (n : RaftNode S)
    (h : Peer) : Prop :=
  Raft.Tracked voters cut g id n → P g shown id n h → ∀ t, f n h = some t →
    ∃ g', Taken voters cut g g' id n t ∧ P g' (shown ++ t.replies) id t.node t.host

theorem Kept.and {voters : List NodeId}
        {shown : List Reply} {h : Peer} (kept : Kept voters cut P g shown id f n h)
    (beside : Raft.Tracked voters cut g id n → P g shown id n h → Q g id n h → ∀ g' t, Local id g g' →
      f n h = some t → Q g' id t.node t.host) :
    Kept voters cut (fun g shown id n h => P g shown id n h ∧ Q g id n h) g shown id f n h := by
  rintro tracked ⟨first,second⟩ t taken
  obtain ⟨g',moved,after⟩ := kept tracked first t taken
  exact ⟨g',moved,after,beside tracked first second g' t moved.moved taken⟩

namespace Along
variable {voters : List NodeId} {shown replies : List Reply} {p p' : Peers S}

theorem simulated_turn {c : Cluster S} {n' : RaftNode S} {outbox : List Envelope}
    (held : Simulated voters cut g [] c) (moved : Moved voters cut g g' id n n')
    (told : ∀ e ∈ outbox, Told voters cut g' id e.recipient e.message) : Simulated voters cut g' []
      { nodes := c.nodes.insert id n'
        sent := c.sent ++ outbox.map (fun e => ⟨id,e.recipient,e.message⟩) } := by
  have replaced := held.replace moved.moved moved.tracked [] (by simp)
  refine { replaced with packet := ?_, committed := by simp }
  intro packet inside
  rcases List.mem_append.mp inside with old | new
  · exact replaced.packet packet old
  · obtain ⟨e,sent,rfl⟩ := List.mem_map.mp new
    exact ⟨moved.tracked.member,told e sent⟩

theorem turn (along : Along voters cut P g shown p) (stable : Stable P) (taken : p.turn id f = some (p',replies))
    (kept : ∀ n h, p.cluster.nodes[id]? = some n → p.hosts[id]? = some h → Kept voters cut P g shown id f n h) :
    ∃ g', Grows g g' ∧ Along voters cut P g' (shown ++ replies) p' := by
  unfold Peers.turn at taken
  split at taken
  swap
  · cases taken
  rename_i n h found found'
  obtain ⟨t,done,same⟩ := Option.map_eq_some_iff.mp taken
  cases same
  obtain ⟨g',moved,here⟩ := kept n h found found' (along.held.tracked found) (along.peer id n h found found') t done
  refine ⟨g',moved.moved.toGrows,simulated_turn along.held moved.toMoved moved.told,?_,?_⟩
  · intro r seen
    simp only [Library.TreeMap.getElem?_insert_eq]
    by_cases same : id = r.peer
    · simp [same]
    · rcases List.mem_append.mp seen with old | new
      · simpa [same] using along.known r old
      · exact absurd (moved.replies r new).symm same
  intro other m k first second
  rw [Library.TreeMap.getElem?_insert_eq] at first second
  by_cases same : id = other
  · rw [if_pos same] at first second
    cases first
    cases second
    exact same ▸ here
  · rw [if_neg same] at first second
    exact stable _ _ _ _ id other m k moved.moved (Ne.symm same) moved.replies (along.peer other m k first second)

theorem whole (along : Along voters False P g shown p) {position : Nat} {packet : Packet}
    (found : p.cluster.sent[position]? = some packet) : Whole packet.message :=
  (along.held.packet packet (List.mem_of_getElem? found)).2.whole (fun no => no) along.held.numbered

theorem step (along : Along voters cut P g shown p) (stable : Stable P) {act : PeerAct}
    (taken : p.step codec act = some (p',replies))
    (whole : ∀ position packet, act = .deliver position → p.cluster.sent[position]? = some packet →
      Whole packet.message)
    (driven : ∀ id n h event, Heard voters cut g id event → Kept voters cut P g shown id (drive event) n h)
    (applied : ∀ id n h, Kept voters cut P g shown id (applyNext codec) n h)
    (proposed : ∀ id n h batch, act = .propose id batch → p.cluster.nodes[id]? = some n →
      p.hosts[id]? = some h → Kept voters cut P g shown id (propose codec id batch) n h)
    (woken : ∀ id n h, act = .wake id → p.hosts[id]? = some h → Kept voters cut P g shown id (wake id) n h)
    (expired : ∀ id n h, Kept voters cut P g shown id (timeout id) n h) (stood : ∀ id n h,
      Kept voters cut P g shown id (fun n h => some { node := n.campaign, host := h }) n h)
    (restarted : ∀ id n h, Kept voters cut P g shown id (restart codec) n h) :
    ∃ g', Grows g g' ∧ Along voters cut P g' (shown ++ replies) p' := by
  cases act with
  | tick id => exact along.turn stable taken (fun n h _ _ => driven id n h .tick trivial)
  | deliver position =>
    simp only [Peers.step] at taken
    split at taken
    · cases taken
    rename_i packet found
    obtain ⟨member,told⟩ := along.held.packet packet (List.mem_of_getElem? found)
    exact along.turn stable taken (fun n h _ _ => driven _ n h (.inbound packet.sender packet.message)
      ⟨member,told,whole position packet rfl found⟩)
  | applyNext id => exact along.turn stable taken (fun n h _ _ => applied id n h)
  | propose id batch =>
    exact along.turn stable taken (fun n h found found' => proposed id n h batch rfl found found')
  | wake id => exact along.turn stable taken (fun n h _ found => woken id n h rfl found)
  | timeout id => exact along.turn stable taken (fun n h _ _ => expired id n h)
  | campaign id => exact along.turn stable taken (fun n h _ _ => stood id n h)
  | restart id => exact along.turn stable taken (fun n h _ _ => restarted id n h)

end Along

section
variable (voters : List NodeId) (config : NodeId → RaftConfig) (storage : NodeId → S)
include voters config storage

omit [LawfulRaftStorage S] in
theorem hosts_join (data : NodeId → DataDirectory) (id : NodeId) : (Peers.join voters config storage data).hosts[id]? =
      if id ∈ voters then some { engine := (data id).engine, commitTsBase := loadOrInitCommitBase (data id) }
      else none := by
  rw [Peers.join,Library.TreeMap.getElem?_foldl_insert]
  simp

omit [LawfulRaftStorage S] in
theorem hosts_start (engine : NodeId → Storage) (id : NodeId) : (Peers.start voters config storage engine).hosts[id]? =
      if id ∈ voters then some { engine := engine id, commitTsBase := (engine id).commitWatermark }
      else none :=
  hosts_join voters config storage (fun id => ⟨engine id,none⟩) id

end

end AuraDb.Replication
