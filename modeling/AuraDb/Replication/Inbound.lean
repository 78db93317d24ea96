import AuraDb.Raft.Node

/-! Inbound peer connections. The handshake is checked under the lock on the connected peers, which are locked
again to register it; the acknowledgement is written after that. -/
namespace AuraDb.Replication
open Function Library Raft

structure Hello where
  clusterId : String
  nodeId : NodeId
  token : String

structure Membership where
  clusterId : String
  peerIds : List NodeId
  token : String

inductive PeerError where
  | clusterIdMismatch | unknownNode | duplicateNode | authFailed

def validateHello (hello : Hello) (membership : Membership) (connected : List NodeId) : Except PeerError NodeId :=
  if hello.clusterId ≠ membership.clusterId then .error .clusterIdMismatch
  else if hello.nodeId ∉ membership.peerIds then .error .unknownNode
  else if membership.token ≠ "" ∧ hello.token ≠ membership.token then .error .authFailed
  else if hello.nodeId ∈ connected then .error .duplicateNode
  else .ok hello.nodeId

inductive PeerMessage where
  | hello (hello : Hello)
  | raft (sender : NodeId) (message : Message)
  | installSnapshotRequest (sender : NodeId) (term lastIncludedIndex lastIncludedTerm : Nat) (snapshot : List UInt8)
  | installSnapshotResponse (sender : NodeId) (term : Nat) (success : Bool) (lastIncludedIndex : Nat)
  | other

def PeerMessage.claimed : PeerMessage → Option NodeId
  | .raft sender .. | .installSnapshotRequest sender .. | .installSnapshotResponse sender .. => some sender
  | .hello _ | .other => none

inductive Progress where
  | validated | registered | served

/-- The connected peers, and how far each connection has come with whose handshake. -/
structure Listener where
  connectedIn : List NodeId := []
  inbound : Nat → Option (Progress × Hello) := fun _ => none

inductive InboundAct where
  | receive (k : Nat) (message : PeerMessage) (dropped : Bool)
  | register (k : Nat)
  | acknowledge (k : Nat) (written : Bool)
  | close (k : Nat)

/-- Shows the messages that the node takes from a peer, with the handshake of the connection. -/
def Listener.step (membership : Membership) (l : Listener) : InboundAct → Option (Listener × List (Hello × PeerMessage))
  | .receive k message dropped => match l.inbound k, message with
    | none, .hello hello => match validateHello hello membership l.connectedIn with
      | .error _ => some (l,[])
      | .ok _ => some ({ l with inbound := update l.inbound k (some (.validated,hello)) },[])
    | none, _ => some (l,[])
    | some (.served,hello), _ =>
      some (l,if dropped ∨ message.claimed ≠ some hello.nodeId then [] else [(hello,message)])
    | _, _ => none
  | .register k => match l.inbound k with
    | some (.validated,hello) =>
      some (⟨l.connectedIn.insert hello.nodeId,update l.inbound k (some (.registered,hello))⟩,[])
    | _ => none
  -- without an acknowledgement the connection ends and stays registered
  | .acknowledge k written => match l.inbound k with
    | some (.registered,hello) =>
      some ({ l with inbound := update l.inbound k (if written then some (.served,hello) else none) },[])
    | _ => none
  | .close k => match l.inbound k with
    | some (.served,hello) => some (⟨l.connectedIn.erase hello.nodeId,update l.inbound k none⟩,[])
    | _ => none

/-- The handshake of a configured peer that knows the token. -/
structure Membership.Admits (membership : Membership) (hello : Hello) : Prop where
  cluster : hello.clusterId = membership.clusterId
  known : hello.nodeId ∈ membership.peerIds
  token : membership.token = "" ∨ hello.token = membership.token

/-- A handshake is checked when no other one of the same node waits to be registered. -/
def Listener.Settled (l : Listener) : InboundAct → Prop
  | .receive _ (.hello hello) _ => ∀ k p, l.inbound k = some p → p.2.nodeId = hello.nodeId → p.1 ≠ .validated
  | _ => True

/-- Nobody else is waiting, registered or heard, nobody is heard under another name than that of the handshake,
and with settled handshakes nobody has two connections. -/
structure Screened (membership : Membership) (settled : Prop) (shown : List (Hello × PeerMessage)) (l : Listener) :
    Prop where
  waiting : ∀ k p, l.inbound k = some p → membership.Admits p.2
  registered : ∀ id ∈ l.connectedIn, id ∈ membership.peerIds
  heard : ∀ p ∈ shown, membership.Admits p.1 ∧ p.2.claimed = some p.1.nodeId
  listed : settled → ∀ k p, l.inbound k = some p → p.1 ≠ .validated → p.2.nodeId ∈ l.connectedIn
  single : settled → ∀ k k' p p', l.inbound k = some p → l.inbound k' = some p' → p.2.nodeId = p'.2.nodeId → k = k'

variable {membership : Membership} {settled : Prop} {shown : List (Hello × PeerMessage)} {l : Listener}

theorem update_some {f : Nat → Option (Progress × Hello)} {k j : Nat} {v : Option (Progress × Hello)}
    {p : Progress × Hello} (held : update f k v j = some p) : j = k ∧ v = some p ∨ j ≠ k ∧ f j = some p := by
  by_cases same : j = k
  · rw [same,update_self] at held
    exact .inl ⟨same,held⟩
  · rw [update_of_ne same] at held
    exact .inr ⟨same,held⟩

theorem of_validateHello {hello : Hello} {connected : List NodeId} {id : NodeId}
    (valid : validateHello hello membership connected = .ok id) :
    membership.Admits hello ∧ hello.nodeId ∉ connected := by
  unfold validateHello at valid
  split_ifs at valid with cluster known token unconnected
  exact ⟨⟨not_not.mp cluster,known,by tauto⟩,unconnected⟩

namespace Screened
variable (screened : Screened membership settled shown l)
include screened

/-- Where a connection ends, or goes on with the handshake it had. -/
theorem kept {k : Nat} {v : Option (Progress × Hello)} {connected : List NodeId}
    (registered : ∀ id ∈ connected, id ∈ membership.peerIds)
    (own : ∀ p', v = some p' → ∃ p, l.inbound k = some p ∧ p.2 = p'.2 ∧ (settled → p'.2.nodeId ∈ connected))
    (others : settled → ∀ j p, j ≠ k → l.inbound j = some p → p.1 ≠ .validated → p.2.nodeId ∈ connected) :
    Screened membership settled shown ⟨connected,update l.inbound k v⟩ := by
  have origin (j : Nat) (p' : Progress × Hello) (held : update l.inbound k v j = some p') :
      ∃ p, l.inbound j = some p ∧ p.2 = p'.2 := by
    rcases update_some held with ⟨rfl,now⟩ | ⟨-,before⟩
    · obtain ⟨p,before,same,-⟩ := own p' now
      exact ⟨p,before,same⟩
    · exact ⟨p',before,rfl⟩
  refine ⟨?_,registered,screened.heard,?_,?_⟩
  · intro j p' held
    obtain ⟨p,before,same⟩ := origin j p' held
    exact same ▸ screened.waiting j p before
  · intro calm j p' held passed
    rcases update_some held with ⟨-,now⟩ | ⟨other,before⟩
    · obtain ⟨-,-,-,listed⟩ := own p' now
      exact listed calm
    · exact others calm j p' other before passed
  · intro calm i j p' q' held held' node
    obtain ⟨p,before,same⟩ := origin i p' held
    obtain ⟨q,before',same'⟩ := origin j q' held'
    exact screened.single calm i j p q before before' (by rw [same,same',node])

theorem greeted {k : Nat} {hello : Hello} {id : NodeId}
    (calm : settled → ∀ j p, l.inbound j = some p → p.2.nodeId = hello.nodeId → p.1 ≠ .validated)
    (valid : validateHello hello membership l.connectedIn = .ok id) :
    Screened membership settled shown { l with inbound := update l.inbound k (some (.validated,hello)) } := by
  obtain ⟨admits,unlisted⟩ := of_validateHello valid
  -- another connection of the node would be listed, and the handshake refused
  have alone (quiet : settled) (j : Nat) (p : Progress × Hello) (held : l.inbound j = some p) :
      p.2.nodeId ≠ hello.nodeId :=
    fun node => unlisted (node ▸ screened.listed quiet j p held (calm quiet j p held node))
  refine ⟨?_,screened.registered,screened.heard,?_,?_⟩
  · intro j p held
    rcases update_some held with ⟨-,⟨⟩⟩ | ⟨-,before⟩
    · exact admits
    · exact screened.waiting j p before
  · intro quiet j p held checked
    rcases update_some held with ⟨-,⟨⟩⟩ | ⟨-,before⟩
    · exact absurd rfl checked
    · exact screened.listed quiet j p before checked
  · intro quiet i j p q held held' node
    rcases update_some held with ⟨rfl,⟨⟩⟩ | ⟨-,before⟩
    · rcases update_some held' with ⟨rfl,-⟩ | ⟨-,before'⟩
      · rfl
      · exact absurd node.symm (alone quiet j q before')
    · rcases update_some held' with ⟨-,⟨⟩⟩ | ⟨-,before'⟩
      · exact absurd node (alone quiet i p before)
      · exact screened.single quiet i j p q before before' node

theorem step {act l' now} (allowed : settled → l.Settled act) (taken : l.step membership act = some (l',now)) :
    Screened membership settled (shown ++ now) l' := by
  have same : Screened membership settled (shown ++ []) l := by rwa [List.append_nil]
  cases act with
  | receive k message dropped =>
    simp only [Listener.step] at taken
    split at taken
    · split at taken
      · cases taken
        exact same
      · rename_i valid
        cases taken
        exact same.greeted allowed valid
    · cases taken
      exact same
    · rename_i hello serves
      cases taken
      refine { screened with heard := ?_ }
      intro p inside
      rcases List.mem_append.mp inside with before | now
      · exact screened.heard p before
      · split at now
        · cases now
        · rename_i passes
          obtain rfl := List.mem_singleton.mp now
          exact ⟨screened.waiting k _ serves,not_not.mp (not_or.mp passes).2⟩
    · cases taken
  | register k =>
    simp only [Listener.step] at taken
    split at taken
    · rename_i hello checked
      cases taken
      refine same.kept ?_ ?_ ?_
      · intro id inside
        rcases List.mem_insert_iff.mp inside with rfl | before
        · exact (screened.waiting k _ checked).known
        · exact screened.registered id before
      · rintro p ⟨⟩
        exact ⟨_,checked,rfl,fun _ => List.mem_insert_self⟩
      · exact fun quiet j p _ before passed => List.mem_insert_of_mem (screened.listed quiet j p before passed)
    · cases taken
  | acknowledge k written =>
    simp only [Listener.step] at taken
    split at taken
    · rename_i hello registers
      cases taken
      refine same.kept screened.registered ?_ (fun quiet j p _ => screened.listed quiet j p)
      intro p held
      split at held
      · cases held
        exact ⟨_,registers,rfl,fun quiet => screened.listed quiet k (.registered,hello) registers nofun⟩
      · cases held
    · cases taken
  | close k =>
    simp only [Listener.step] at taken
    split at taken
    · rename_i hello serves
      cases taken
      refine same.kept (fun id inside => screened.registered id (List.mem_of_mem_erase inside)) nofun ?_
      intro quiet j p other before passed
      -- the node that leaves the table has no other connection
      have apart : p.2.nodeId ≠ hello.nodeId := fun node => other (screened.single quiet j k p _ before serves node)
      exact (List.mem_erase_of_ne apart).mpr (screened.listed quiet j p before passed)
    · cases taken

end Screened

/-- Whatever the connections do at once, the node hears only configured peers that know the token. -/
theorem connections_screened {admitted : Listener → InboundAct → Prop}
    (run : Run (Listener.step membership) admitted {} shown l) :
    Screened membership (∀ l a, admitted l a → l.Settled a) shown l :=
  run.invariant (Screened membership _) ⟨by simp,by simp,by simp,by simp,by simp⟩
    (fun _ _ _ _ _ screened allowed taken => screened.step (fun settled => settled _ _ allowed) taken)

theorem connections_screened_greeting : ∃ l shown, Run (Listener.step ⟨"c",[2],"t"⟩) Listener.Settled {} shown l ∧
    shown.length = 1 ∧ Screened ⟨"c",[2],"t"⟩ (∀ l a, Listener.Settled l a → l.Settled a) shown l := by
  have fresh := @Run.start _ _ _ (Listener.step ⟨"c",[2],"t"⟩) Listener.Settled {}
  have greeted := fresh.next (.receive 0 (.hello ⟨"c",2,"t"⟩) false) (by simp [Listener.Settled]) rfl
  have served := (greeted.next (.register 0) trivial rfl).next (.acknowledge 0 true) trivial rfl
  have heard := served.next (.receive 0 (.raft 2 (.requestVote 5 0 0)) false) trivial rfl
  exact ⟨_,_,heard,rfl,connections_screened heard⟩

end AuraDb.Replication
