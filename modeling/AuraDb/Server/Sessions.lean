import AuraDb.Engine.Rejection
import AuraDb.Server.Isolation

/-! What a session holds of the engine: the writes staged in its transactions, counted before they are staged,
and its open transactions and cursors, released where its connection ends. -/
namespace AuraDb
open Library Library.TreeMap Std
variable {e : Engine}

namespace Engine
variable [Host] {txn : Transaction} {m : Mutation}

/-- Where the count taken of a mutation bounds what is staged: one for each document of a bulk insert, and one
for anything else. -/
def Counted (e : Engine) (txn : Transaction) : Mutation → Prop
  | .bulkInsert c docs => e.TimedOut txn ∨ e.AskedBefore txn (.bulkInsert c docs)
  | .update c filter _ | .delete c filter => (e.txnTargets txn c filter).length ≤ 1
  | _ => True

/-- A mutation adds no more to the write set than its count, and nothing where it fails. -/
theorem stageMutation_size (counted : e.Counted txn m) (active : ¬e.TimedOut txn) :
    ((∃ err, (e.stageMutation txn m).result = .error err) → (e.stageMutation txn m).txn.staged = txn.staged) ∧
      (e.stageMutation txn m).txn.staged.size ≤ txn.staged.size + Server.mutationWriteCount m := by
  refine ⟨stageMutation_refused.mpr ?_,?_⟩
  · cases m with
    | bulkInsert c docs => exact counted.resolve_left active
    | insert c fields | upsert c fields =>
      intro schema _ refused
      obtain one : none = e.putFor schema c txn.id fields _ := List.mem_singleton.mp refused
      simp [asked,putsFor,← one,overwritten]
    | update c filter set =>
      intro schema _ refused
      simp only [Counted,asked] at counted refused ⊢
      rcases picked : e.txnTargets txn c filter with _ | ⟨old,_ | ⟨other,rest⟩⟩
      · simp [picked] at refused
      · rw [picked,List.map_singleton,List.mem_singleton] at refused
        rw [List.map_singleton,← refused,overwritten]
      · simp [picked] at counted
    | delete c filter => simp [AskedBefore,asked]
  · cases declared : e.schemaFor m.collection with
    | error _ =>
      simp only [stageMutation,declared]
      exact Nat.le_add_right _ _
    | ok schema =>
      rcases (@stageMutation_staged m e _ schema txn declared).2 with ⟨c,filter,rfl⟩ | staged
      · simp only [stageMutation,declared,Counted] at counted ⊢
        rcases picked : e.txnTargets txn c filter with _ | ⟨old,_ | ⟨other,rest⟩⟩
        · exact Nat.le_add_right _ _
        · exact ExtTreeMap.size_insert_le
        · simp [picked] at counted
      · rw [staged]
        refine (overwritten_size _ _).trans (Nat.add_le_add_left ?_ _)
        cases m with
        | insert | upsert => exact Nat.le_refl _
        | bulkInsert c docs => simp [asked,putsFor,Server.mutationWriteCount]
        | update c filter set => exact (List.length_map _).trans_le counted
        | delete => exact Nat.zero_le _

theorem stage_size {now : Nat} (counted : e.Counted txn m) :
    ((∃ err, (e.stage txn m now).2.2 = .error err) → (e.stage txn m now).2.1.staged = txn.staged) ∧
      (e.stage txn m now).2.1.staged.size ≤ txn.staged.size + Server.mutationWriteCount m := by
  unfold stage touchTxn
  cases known : e.txns[txn.id]? with
  | none => exact stageMutation_size counted (by simp [TimedOut,known])
  | some entry =>
    cases state : entry.state with
    | timedOut => simp [state]
    | active =>
      simp only [state]
      refine stageMutation_size ?_ (by simp [TimedOut])
      cases m with
      | bulkInsert c docs => exact .inr (AskedBefore.touched.mpr (counted.resolve_left (by simp [TimedOut,known,state])))
      | insert | upsert | update | delete => exact counted

end Engine

namespace Server
open Library.Framing Protocol
variable {frame : Frame}
section Requests
variable {m : Moment} {config : ServerConfig} {client : Client} [Host] [Gateway]

/-- The staged writes are at most the count kept for them, which is within the limit. -/
def Client.WithinWriteSet (config : ServerConfig) (client : Client) : Prop :=
  ∀ t : TxnId, client.staged t ≤ config.limits.maxTransactionWriteSet ∧
    ∀ txn, client.transactions[t]? = some txn → txn.staged.size ≤ client.staged t

theorem Client.WithinWriteSet.covers (within : client.WithinWriteSet config)
    (counted : frame.opcode = .mutate → frame.txnId ≠ 0 → ∀ txn, client.transactions[frame.txnId.toNat]? = some txn →
      ∀ mutation, Gateway.decodeMutation frame.payload = .ok mutation →
        e.Counted txn mutation) :
    Covers config m e client frame fun _ client' _ => client'.WithinWriteSet config := by
  refine ⟨?_,?_,?_,?_⟩
  · intro _ client' _ _ same t
    rw [same.transactions,same.staged]
    exact within t
  · intro mutation txn client' _ isMutate read inside held stages t
    obtain ⟨failed,grown⟩ := Engine.stage_size (counted isMutate inside txn held mutation read)
    have before := (within frame.txnId.toNat).2 txn held
    by_cases own : t = frame.txnId.toNat
    · subst own
      rw [stages.transactions,getElem?_insert_eq,if_pos rfl]
      rcases stages.counted with ⟨⟨err,refused⟩,count⟩ | ⟨count,fits⟩
      · rw [count]
        refine ⟨(within _).1,?_⟩
        rintro _ ⟨⟩
        rwa [failed ⟨err,refused⟩]
      · refine ⟨fits,?_⟩
        rintro _ ⟨⟩
        rw [count]
        exact grown.trans (Nat.add_le_add_right before _)
    · rw [stages.transactions,getElem?_insert_eq,if_neg (Ne.symm own),stages.others t own]
      exact within t
  · intro t
    refine ⟨(within t).1,fun txn found => ?_⟩
    rcases of_getElem?_insert found with ⟨rfl,rfl⟩ | ⟨_,old⟩
    · exact Nat.zero_le _
    · exact (within t).2 txn old
  · intro _ _ _ _ _ t
    simp only [Client.staged,getElem?_erase_eq]
    split
    · exact ⟨Nat.zero_le _,by rintro _ ⟨⟩⟩
    · exact within t

/-- Every transaction of the registry after a request was there before and is not let go of, or the session has
begun it. -/
def Tidy (e : Engine) (client : Client) (e' : Engine) (client' : Client) : Prop :=
  client'.connectionId = client.connectionId ∧ ∀ (t : TxnId) entry, e'.txns[t]? = some entry →
    (∃ old, e.txns[t]? = some old ∧ old.connectionId = entry.connectionId ∧
      (client.transactions[t]? ≠ none → client'.transactions[t]? ≠ none)) ∨
    entry.connectionId = some client.connectionId ∧ client'.transactions[t]? ≠ none

theorem Client.Keyed.tidy (keyed : client.Keyed) : Covers config m e client frame
    fun e' client' reply => ¬reply.Panics → Tidy e client e' client' := by
  have inserted {t t' : TxnId} {txn : Transaction} (listed : client.transactions[t]? ≠ none) :
      (client.transactions.insert t' txn)[t]? ≠ none := by
    rw [getElem?_insert_eq]
    split
    · simp
    · exact listed
  have kept {e' : Engine} {client' : Client} (keeps : e.Keeps e') (connectionId : client'.connectionId = client.connectionId)
      (listed : ∀ t : TxnId, client.transactions[t]? ≠ none → client'.transactions[t]? ≠ none) :
      Tidy e client e' client' := by
    refine ⟨connectionId,fun t entry found => .inl ?_⟩
    obtain ⟨old,held,same⟩ := keeps t entry found
    exact ⟨old,held,same,listed t⟩
  refine ⟨?_,?_,?_,?_⟩
  · exact fun _ _ _ keeps same _ => kept keeps same.connectionId fun t listed => same.transactions ▸ listed
  · intro mutation txn client' _ _ _ _ _ stages _
    exact kept (e.stage_keeps txn mutation m.now) stages.connectionId fun t listed => stages.transactions ▸ inserted listed
  · intro _
    refine ⟨rfl,forall_insert (.inr ⟨rfl,by simp [handleBegin,Engine.beginTxn,Transaction.beginAt]⟩) ?_⟩
    exact fun t entry _ found => .inl ⟨entry,found,rfl,inserted⟩
  · intro txn e' reply held gone calm
    refine ⟨rfl,fun t entry found => .inl ?_⟩
    rw [gone calm,keyed _ _ held] at found
    obtain ⟨other,before⟩ := of_getElem?_erase found
    refine ⟨entry,before,rfl,fun listed => ?_⟩
    rwa [getElem?_erase_eq,if_neg (Ne.symm other)]

end Requests

namespace Hub
variable {who : Nat} {now : List Shown}
section
variable [Host] [Ranked] [KeyText] [Gateway] {config : ServerConfig} {h h' : Hub}

theorem step_handled {m : Moment}
    (taken : step config h (.request who frame m) = some (h',now)) : ∃ session, h.sessions[who]? = some session ∧
      ¬(handle config m h.state session frame).reply.Panics ∧
      h' = h.handled who (handle config m h.state session frame) := by
  obtain ⟨session,response,x,held,_,does,replied,rfl,_⟩ := step_request taken
  rw [← does h.state session ⟨rfl,rfl,rfl,rfl⟩ fun _ _ => rfl] at replied ⊢
  refine ⟨session,held,?_,rfl⟩
  unfold Handled.response at replied
  split at replied
  · rename_i answered
    rw [answered]
    exact id
  · rename_i answered
    rw [answered]
    exact id
  · cases replied

/-- A request that stages a mutation stages no more than is counted for it. -/
def Counts (h : Hub) : HubAct → Prop
  | .request who frame _ => frame.opcode = .mutate → frame.txnId ≠ 0 → ∀ session, h.sessions[who]? = some session →
      ∀ txn, session.transactions[frame.txnId.toNat]? = some txn →
      ∀ mutation, Gateway.decodeMutation frame.payload = .ok mutation →
        h.state.engine.Counted txn mutation
  | _ => True

/-- Write-set bound: where no update or delete selects more than one record and no bulk insert stages something
new before a document that is refused, no transaction has more writes staged than the limit. -/
theorem write_set_bounded (engine : Engine) (cursorTimeout : Nat) {shown : List Shown}
    (ran : Run (step config) Counts (fresh engine cursorTimeout) shown h) {who : Nat} {session : Session}
    (held : h.sessions[who]? = some session) {t : TxnId} {txn : Transaction}
    (isOpen : session.transactions[t]? = some txn) : txn.staged.size ≤ config.limits.maxTransactionWriteSet := by
  have bounded : ∀ (who : Nat) session, h.sessions[who]? = some session → session.WithinWriteSet config := by
    refine ran.invariant (fun _ h => ∀ (who : Nat) session, h.sessions[who]? = some session →
      session.WithinWriteSet config) (by simp [fresh]) ?_
    intro _ h act h' now within counts taken
    by_cases other : ∀ who frame m, act ≠ .request who frame m
    · intro who session found
      rcases (step_shrinks other taken).1.sessions who session found with before | rfl
      · exact within who session before
      · intro t
        simp [Session.fresh,Client.staged]
    · push Not at other
      obtain ⟨who,frame,m,rfl⟩ := other
      obtain ⟨session,before,_,rfl⟩ := step_handled taken
      refine forall_insert ?_ fun other session _ found => within other session found
      exact handle_covers ((within who session before).covers fun isMutate inside => counts isMutate inside session before)
  exact ((bounded who session held t).2 txn isOpen).trans (bounded who session held t).1

end

/-- A connection whose response cannot be written is gone: the error is returned past `cleanup`. -/
inductive ConnAct where
  | hub (act : HubAct)
  | unwritten (who : Nat) (frame : Frame) (m : Moment)

def ConnAct.writes (a : Nat) : ConnAct → Prop
  | .hub _ => True
  | .unwritten who _ _ => who ≠ a

def connStep [Host] [Ranked] [KeyText] [Gateway] (config : ServerConfig) (h : Hub) : ConnAct → Option (Hub × List Shown)
  | .hub act => step config h act
  | .unwritten who frame m => (step config h (.request who frame m)).map fun p =>
      ({ p.1 with sessions := p.1.sessions.erase who },[])

/-- What a connection has of the server is listed in its session. -/
structure Owned (a : Nat) (h : Hub) : Prop where
  kept : Kept h
  named : ∀ (who : Nat) session, h.sessions[who]? = some session → session.connectionId = who ∧ who < h.connectionCounter
  txns : ∀ (t : TxnId) entry, h.state.engine.txns[t]? = some entry → entry.connectionId = some a →
    ∃ session, h.sessions[a]? = some session ∧ session.transactions[t]? ≠ none
  cursors : ∀ (id : Nat) txn, h.openers[id]? = some (a,txn) → h.state.cursors.cursors[id]? ≠ none →
    ∃ session, h.sessions[a]? = some session ∧ id ∈ session.cursorIds

section
variable {config : ServerConfig} {h h' : Hub} {a : Nat}

theorem Owned.fresh {engine : Engine} (unowned : ∀ (t : TxnId) entry, engine.txns[t]? = some entry →
    entry.connectionId = none) (cursorTimeout : Nat) : Owned a (fresh engine cursorTimeout) := by
  refine ⟨fresh_kept engine cursorTimeout,by simp [Hub.fresh],fun t entry found own => ?_,by simp [Hub.fresh]⟩
  rw [unowned t entry found] at own
  cases own

theorem session_insert {sessions : ExtTreeMap Nat Session compare} {next : Session} {P : Session → Prop}
    (before : ∃ session, sessions[a]? = some session ∧ P session)
    (own : ∀ session, sessions[who]? = some session → P session → P next) :
    ∃ session, (sessions.insert who next)[a]? = some session ∧ P session := by
  obtain ⟨session,held,holds⟩ := before
  rw [getElem?_insert_eq]
  split
  · rename_i same
    exact ⟨next,rfl,own session (same ▸ held) holds⟩
  · exact ⟨session,held,holds⟩

theorem Owned.quiet (owned : Owned a h) (kept : Kept h') (sessions : h'.sessions[a]? = h.sessions[a]?)
    (named : ∀ (who : Nat) session, h'.sessions[who]? = some session →
      session.connectionId = who ∧ who < h'.connectionCounter)
    (keeps : h.state.engine.Keeps h'.state.engine) (openers : h'.openers = h.openers)
    (closed : ∀ id : Nat, h.state.cursors.cursors[id]? = none → h'.state.cursors.cursors[id]? = none) : Owned a h' := by
  refine ⟨kept,named,fun t entry found own => ?_,fun id txn opened left => ?_⟩
  · obtain ⟨old,before,same⟩ := keeps t entry found
    rw [sessions]
    exact owned.txns t old before (same.trans own)
  · rw [sessions]
    exact owned.cursors id txn (openers ▸ opened) fun none => left (closed id none)

theorem cleanup_keeps (state : ServerState) (session : Session) :
    state.engine.Keeps (cleanup state session).engine := by
  have rolled (l : List (TxnId × Transaction)) (e : Engine) : e.Keeps (l.foldl (fun e p => e.rollback p.2.id) e) := by
    induction l generalizing e with
    | nil => exact .of_eq rfl
    | cons p rest ih => exact (e.rollback_keeps p.2.id).trans (ih _)
  exact rolled _ _

theorem cleanup_gone {state : ServerState} {session : Session} (keyed : session.toClient.Keyed) {t : TxnId}
    (listed : session.transactions[t]? ≠ none) : (cleanup state session).engine.txns[t]? = none := by
  have rolled (l : List (TxnId × Transaction)) (e : Engine) (inside : ∃ p ∈ l, p.2.id = t) :
      (l.foldl (fun e p => e.rollback p.2.id) e).txns[t]? = none := by
    induction l using List.reverseRecOn with
    | nil => simp at inside
    | append_singleton rest p ih =>
      rw [List.foldl_append,List.foldl_cons,List.foldl_nil,Engine.rollback,getElem?_erase_eq]
      split
      · rfl
      rename_i other
      obtain ⟨q,among,same⟩ := inside
      rcases List.mem_append.mp among with before | last
      · exact ih ⟨q,before,same⟩
      · exact absurd (List.mem_singleton.mp last ▸ same) other
  obtain ⟨txn,held⟩ := Option.ne_none_iff_exists'.mp listed
  exact rolled _ _ ⟨(t,txn),ExtTreeMap.mem_toList_iff_getElem?_eq_some.mpr held,keyed t txn held⟩

variable [Host] [Ranked] [KeyText] [Gateway]

theorem Owned.request (owned : Owned a h) {m : Moment}
    (taken : step config h (.request who frame m) = some (h',now)) : Owned a h' := by
  obtain ⟨session,held,calm,is⟩ := step_handled taken
  obtain ⟨connectionId,registered⟩ := handle_covers (owned.kept.keyed who session held).tidy calm
  obtain ⟨session',_,x,held',sound,_,_,is',_⟩ := step_request taken
  cases held.symm.trans held'
  refine ⟨(owned.kept.step taken).1,?_,?_,?_⟩
  · rw [is]
    refine forall_insert ?_ fun other session _ found => owned.named other session found
    exact ⟨connectionId.trans (owned.named who session held).1,(owned.named who session held).2⟩
  · rw [is]
    intro t entry found own
    rcases registered t entry found with ⟨old,before,same,listed⟩ | ⟨mine,listed⟩
    · refine session_insert (owned.txns t old before (same.trans own)) fun other found inside => ?_
      cases held.symm.trans found
      exact listed inside
    · rw [mine,(owned.named who session held).1] at own
      cases own
      exact ⟨_,getElem?_insert_eq .. |>.trans (if_pos rfl),listed⟩
  · rw [is']
    intro id txn
    unfold handled Effect.on
    split
    · intro opened left
      refine session_insert (owned.cursors id txn opened left) fun other found inside => ?_
      cases held.symm.trans found
      exact inside
    · intro opened left
      rcases of_getElem?_insert opened with ⟨rfl,same⟩ | ⟨different,before⟩
      · cases same
        exact ⟨_,getElem?_insert_eq .. |>.trans (if_pos rfl),ExtTreeSet.mem_insert_self⟩
      · rw [CursorRegistry.openAt,getElem?_insert_eq,if_neg (Ne.symm different)] at left
        refine session_insert (owned.cursors id txn before left) fun other found inside => ?_
        cases held.symm.trans found
        exact ExtTreeSet.mem_insert.mpr (.inr inside)
    · rename_i turnedId entry forgotten turned
      obtain ⟨_,absent,last⟩ := sound.turned _ _ _ turned
      intro opened left
      rw [getElem?_alter_eq] at left
      have before : h.state.cursors.cursors[id]? ≠ none := by
        split at left
        · rename_i same
          exact fun none => left (absent (same ▸ none))
        · exact left
      refine session_insert (owned.cursors id txn opened before) fun other found inside => ?_
      cases held.symm.trans found
      split
      · rename_i gone
        rw [last gone] at left
        refine ExtTreeSet.mem_erase.mpr ⟨fun same => ?_,inside⟩
        rw [LawfulEqCmp.compare_eq_iff_eq.mp same,if_pos rfl] at left
        exact left rfl
      · exact inside

theorem Owned.step (owned : Owned a h) {act : ConnAct} (writes : act.writes a)
    (taken : connStep config h act = some (h',now)) : Owned a h' := by
  cases act with
  | unwritten who frame m =>
    obtain ⟨⟨served,shown⟩,done,is⟩ := Option.map_eq_some_iff.mp taken
    cases is
    have after := owned.request done
    refine after.quiet (after.kept.shrink ⟨rfl,rfl,fun _ none => none,fun other session found => .inl ?_⟩) ?_ ?_ (.of_eq rfl)
      rfl fun _ none => none
    · exact (of_getElem?_erase found).2
    · rw [getElem?_erase_eq,if_neg writes]
    · exact fun other session found => after.named other session (of_getElem?_erase found).2
  | hub act =>
    by_cases other : ∀ who frame m, act ≠ .request who frame m
    · have shrinks := (step_shrinks other taken).1
      have quiet := owned.quiet (owned.kept.shrink shrinks)
      cases act with
      | request who frame m => exact absurd rfl (other who frame m)
      | connect =>
        cases taken
        have unused : h.sessions[h.connectionCounter]? = none := by
          cases held : h.sessions[h.connectionCounter]? with
          | none => rfl
          | some session => exact absurd (owned.named _ session held).2 (Nat.lt_irrefl _)
        have still {P : Session → Prop} (before : ∃ session, h.sessions[a]? = some session ∧ P session) :
            ∃ session, (h.sessions.insert h.connectionCounter (.fresh h.connectionCounter))[a]? = some session ∧
              P session :=
          session_insert before fun session held => by cases unused.symm.trans held
        refine ⟨owned.kept.shrink shrinks,forall_insert ⟨rfl,Nat.lt_succ_self _⟩ ?_,?_,?_⟩
        · exact fun who session _ found => ⟨(owned.named who session found).1,
            Nat.lt_succ_of_lt (owned.named who session found).2⟩
        · exact fun t entry found own => still (owned.txns t entry found own)
        · exact fun id txn opened left => still (owned.cursors id txn opened left)
      | disconnect who =>
        simp only [connStep,Hub.step] at taken
        split at taken
        · cases taken
        rename_i session held
        cases taken
        by_cases mine : who = a
        · subst mine
          refine ⟨owned.kept.shrink shrinks,?_,fun t entry found own => ?_,fun id txn opened left => ?_⟩
          · exact fun other session found => owned.named other session (of_getElem?_erase found).2
          · obtain ⟨old,before,same⟩ := cleanup_keeps h.state session t entry found
            obtain ⟨session',held',listed⟩ := owned.txns t old before (same.trans own)
            cases held.symm.trans held'
            cases found.symm.trans (cleanup_gone (owned.kept.keyed who session held) listed)
          · rw [cleanup,CursorRegistry.cursors_closeAll] at left
            split at left
            · exact absurd rfl left
            rename_i unlisted
            obtain ⟨session',held',listed⟩ := owned.cursors id txn opened left
            cases held.symm.trans held'
            exact absurd (ExtTreeSet.mem_toList.mpr listed) unlisted
        · refine quiet ?_ ?_ (cleanup_keeps h.state session) rfl shrinks.held
          · rw [getElem?_erase_eq,if_neg mine]
          · exact fun other session found => owned.named other session (of_getElem?_erase found).2
      | reapTransactions now =>
        cases taken
        exact quiet rfl owned.named (h.state.engine.reapTransactions_keeps now) rfl shrinks.held
      | reapCursors _ | gc _ =>
        cases taken
        exact quiet rfl owned.named (.of_eq rfl) rfl shrinks.held
    · push Not at other
      obtain ⟨who,frame,m,rfl⟩ := other
      exact owned.request taken

end

/-- Disconnect releases everything, unless the connection ended in the failure to write a response: no
transaction is registered, no cursor is left, and nothing of it holds back the collector. -/
theorem disconnect_releases [Host] [Ranked] [KeyText] [Gateway] {config : ServerConfig} {engine : Engine}
    (unowned : ∀ (t : TxnId) entry, engine.txns[t]? = some entry → entry.connectionId = none) (cursorTimeout a : Nat)
    {h : Hub} {shown : List Shown}
    (ran : Run (connStep config) (fun _ act => act.writes a) (fresh engine cursorTimeout) shown h)
    (gone : h.sessions[a]? = none) :
    (∀ (t : TxnId) entry, h.state.engine.txns[t]? = some entry → entry.connectionId ≠ some a) ∧
    (∀ (id : Nat) txn, h.openers[id]? = some (a,txn) → h.state.cursors.cursors[id]? = none) ∧
    ∀ ts, h.state.engine.oldestActiveReadTs = some ts → ∃ (t : TxnId) (entry : TxnEntry),
      h.state.engine.txns[t]? = some entry ∧ entry.state = .active ∧ entry.readTs = ts ∧ entry.connectionId ≠ some a := by
  have owned : Owned a h := ran.invariant (fun _ h => Owned a h) (.fresh unowned cursorTimeout)
    fun _ _ _ _ _ owned writes taken => owned.step writes taken
  have absent {P : Session → Prop} : ¬∃ session, h.sessions[a]? = some session ∧ P session := by simp [gone]
  have unlisted (t : TxnId) (entry : TxnEntry) (found : h.state.engine.txns[t]? = some entry) :
      entry.connectionId ≠ some a := fun own => absent (owned.txns t entry found own)
  refine ⟨unlisted,fun id txn opened => ?_,fun ts oldest => ?_⟩
  · by_contra left
    exact absent (owned.cursors id txn opened left)
  · obtain ⟨⟨t,entry⟩,active,rfl⟩ := List.mem_map.mp (List.min?_mem oldest)
    obtain ⟨listed,isActive⟩ := List.mem_filter.mp active
    have found := ExtTreeMap.mem_toList_iff_getElem?_eq_some.mp listed
    exact ⟨t,entry,found,beq_iff_eq.mp isActive,rfl,unlisted t entry found⟩

def strictConfig : ServerConfig := { plainConfig with limits := { plainConfig.limits with maxTransactionWriteSet := 1 } }

theorem disconnect_releases_reader : ∃ (h : Hub) (shown : List Shown),
    Run (@connStep plainHost Engine.noRanking namedKey plainGateway plainConfig) (fun _ act => act.writes 1)
      (fresh plainState.engine 300) shown h ∧ h.openers[1]? = some (1,some 4) ∧
    (∀ (t : TxnId) entry, h.state.engine.txns[t]? = some entry → entry.connectionId ≠ some 1) ∧
    h.state.cursors.cursors[1]? = none := by
  obtain ⟨h,shown,run,opened,gone⟩ := @Run.exists_of_steps _ _ _
    (@connStep plainHost Engine.noRanking namedKey plainGateway plainConfig) (fun _ act => act.writes 1)
    ((threeNotes ++ [ask 1 .txnBegin 0 [],ask 1 .query 4 [],.disconnect 1]).map .hub) (fresh plainState.engine 300)
    (fun h _ => h.openers[1]? = some (1,some 4) ∧ h.sessions[1]?.isNone = true) (by decide +kernel)
    (fun act inside _ => by obtain ⟨_,_,rfl⟩ := List.mem_map.mp inside; trivial)
  have unused : plainState.engine.txns = ∅ := by decide +kernel
  obtain ⟨txns,cursors,_⟩ := @disconnect_releases plainHost Engine.noRanking namedKey plainGateway plainConfig
    plainState.engine (by simp [unused]) 300 1 h shown run (Option.isNone_iff_eq_none.mp gone)
  exact ⟨h,shown,run,opened,txns,cursors 1 (some 4) opened⟩

/-- The page that opens the cursor cannot be written: the connection is gone, its transaction and cursor are
not. -/
theorem unwritten_keeps : ∃ (h : Hub) (shown : List Shown),
    Run (@connStep plainHost Engine.noRanking namedKey plainGateway plainConfig) (fun _ _ => True)
      (fresh plainState.engine 300) shown h ∧ h.sessions[1]?.isNone = true ∧
    (∃ entry ∈ h.state.engine.txns[4]?, entry.state = .active ∧ entry.connectionId = some 1) ∧
    h.openers[1]? = some (1,some 4) ∧ h.state.cursors.cursors[1]?.isSome = true :=
  Run.exists_free (@connStep plainHost Engine.noRanking namedKey plainGateway plainConfig)
    ((threeNotes ++ [ask 1 .txnBegin 0 []]).map .hub ++ [.unwritten 1 (plainFrame .query 4 []) plainMoment])
    _ _ (by decide +kernel)

theorem write_set_bounded_note : ∃ h shown session txn,
    Run (@step plainHost Engine.noRanking namedKey plainGateway strictConfig) (@Counts plainHost plainGateway)
      (fresh plainState.engine 300) shown h ∧ h.sessions[1]? = some session ∧ session.transactions[1]? = some txn ∧
    txn.staged.size = 1 ∧ txn.staged.size ≤ strictConfig.limits.maxTransactionWriteSet := by
  have counts (h : Hub) (act : HubAct) : @Counts plainHost plainGateway h act := by
    cases act with
    | request who frame m =>
      rintro _ _ session _ txn _ mutation ⟨⟩
      trivial
    | _ => trivial
  obtain ⟨h,shown,run,session,held,txn,isOpen,one⟩ := @Run.exists_of_steps _ _ _
    (@step plainHost Engine.noRanking namedKey plainGateway strictConfig) (@Counts plainHost plainGateway)
    [.connect,ask 1 .txnBegin 0 [],ask 1 .mutate 1 [0x61],ask 1 .mutate 1 [0x62]] (fresh plainState.engine 300)
    (fun h _ => ∃ session ∈ h.sessions[1]?, ∃ txn ∈ session.transactions[1]?, txn.staged.size = 1) (by decide +kernel)
    (fun act _ h => counts h act)
  exact ⟨h,shown,session,txn,run,held,isOpen,one,@write_set_bounded plainHost Engine.noRanking namedKey plainGateway
    strictConfig h plainState.engine 300 shown run 1 session held 1 txn isOpen⟩

@[reducible] def rewritingGateway : Gateway :=
  { plainGateway with decodeMutation := fun payload =>
      if payload.isEmpty then .ok (.update "notes" none []) else plainGateway.decodeMutation payload }

/-- One update rewrites three notes, and counts as one write. -/
theorem write_set_exceeded : ∃ h shown, Run (@step plainHost Engine.noRanking namedKey rewritingGateway strictConfig)
      (fun _ _ => True) (fresh plainState.engine 300) shown h ∧
    ∃ session ∈ h.sessions[1]?, ∃ txn ∈ session.transactions[4]?,
      txn.staged.size = 3 ∧ strictConfig.limits.maxTransactionWriteSet = 1 :=
  Run.exists_free (@step plainHost Engine.noRanking namedKey rewritingGateway strictConfig)
    (threeNotes ++ [ask 1 .txnBegin 0 [],ask 1 .mutate 4 []]) _ _ (by decide +kernel)

end Hub

end Server

end AuraDb
