import AuraDb.Server.Admission
import AuraDb.Server.Transactions

/-! Many connections on one server. A cursor belongs to nobody: whoever names its id fetches or closes it. Where
every connection keeps to its own cursors and their transactions, they are out of reach of all others. -/
namespace AuraDb.Server
open Library Library.Framing Protocol Library.TreeMap Std CursorRegistry
variable {txn : Option Transaction} {frame : Frame} {m : Moment}

/-- Who opened a cursor, and in which transaction, is noted beside the server, which does not keep it. -/
structure Hub where
  state : ServerState
  sessions : ExtTreeMap Nat Session compare
  connectionCounter : Nat
  openers : ExtTreeMap Nat (Nat × Option TxnId) compare

inductive HubAct where
  | connect
  | request (who : Nat) (frame : Frame) (m : Moment)
  | disconnect (who : Nat)
  | reapCursors (now : Nat)
  | reapTransactions (now : Nat)
  | gc (rewritten : Result Nat)

inductive Shown where
  | replied (who : Nat) (request : Frame) (response : Response)
  | paged (cursor : Nat) (through : Option TxnId)

def namedCursor [Gateway] (frame : Frame) : Option Nat :=
  match frame.opcode with
  | .cursorFetch => match Gateway.decodeCursorFetch frame.payload with
    | .ok req => some req.cursorId
    | .error _ => none
  | .cursorClose => match Gateway.decodeCursorClose frame.payload with
    | .ok id => some id
    | .error _ => none
  | _ => none

def isCursorRequest (frame : Frame) : Bool := frame.opcode == .cursorFetch || frame.opcode == .cursorClose

theorem txnOf_id {client : Client} {frame : Frame} (keyed : client.Keyed) (chosen : client.txnOf frame = .ok txn) :
    txn.map (·.id) = if frame.txnId = 0 then none else some frame.txnId.toNat := by
  unfold Client.txnOf at chosen
  split at chosen
  · rename_i outside
    cases chosen
    rw [if_pos outside]
    rfl
  · rename_i inside
    split at chosen
    · cases chosen
    · rename_i found
      cases chosen
      rw [if_neg inside,Option.map_some,keyed _ _ found]

/-- Nothing, open the next cursor, or leave the named one with another entry, or none. -/
inductive CursorChange where
  | untouched
  | opened (query : FindQuery) (ordered : List Scored) (baseRank : Nat) (through : Option TxnId)
  | turned (id : Nat) (held : Option CursorEntry) (forgotten : Bool)

structure Effect where
  engine : Engine
  client : Client
  started : List Evaluation
  reply : Outcome Reply
  change : CursorChange := .untouched
  paged : Option (Nat × Option TxnId) := none

def Effect.on (x : Effect) (now : Nat) (state : ServerState) (session : Session) : Handled :=
  match x.change with
  | .untouched => ⟨⟨x.engine,state.cursors⟩,⟨x.client,session.cursorIds⟩,x.started,x.reply,none,x.paged⟩
  | .opened query ordered baseRank through =>
    ⟨⟨x.engine,state.cursors.openAt query ordered baseRank now⟩,
      ⟨x.client,session.cursorIds.insert state.cursors.nextId⟩,x.started,x.reply,
      some (state.cursors.nextId,through),x.paged⟩
  | .turned id held forgotten =>
    ⟨⟨x.engine,{ state.cursors with cursors := state.cursors.cursors.alter id fun _ => held }⟩,
      ⟨x.client,if forgotten then session.cursorIds.erase id else session.cursorIds⟩,x.started,x.reply,none,x.paged⟩

theorem Effect.on_paged (x : Effect) (now : Nat) (state : ServerState) (session : Session) :
    (x.on now state session).paged = x.paged := by
  unfold Effect.on
  split <;> rfl

theorem Effect.on_response (x : Effect) (now : Nat) (state state' : ServerState) (session session' : Session)
    (frame : Frame) : (x.on now state' session').response frame = (x.on now state session).response frame := by
  unfold Effect.on
  split <;> rfl

structure SameApart (state state' : ServerState) (session session' : Session) : Prop where
  engine : state'.engine = state.engine
  nextId : state'.cursors.nextId = state.cursors.nextId
  timeout : state'.cursors.timeout = state.cursors.timeout
  client : session'.toClient = session.toClient

section Effects
variable {state state' : ServerState} {session session' : Session} {config : ServerConfig} [Gateway]

/-- A cursor is opened in the transaction of the frame and turned where it is named; a request about a cursor
leaves everything else alone, but for activity on the transaction of a fetch. -/
structure Effect.Sound (x : Effect) (state : ServerState) (session : Session) (frame : Frame) (m : Moment) : Prop where
  keyed : session.toClient.Keyed → x.client.Keyed
  opened : ∀ query ordered baseRank through, x.change = .opened query ordered baseRank through →
    isCursorRequest frame = false ∧ ∃ txn, session.txnOf frame = .ok txn ∧ through = txn.map (·.id)
  turned : ∀ id held forgotten, x.change = .turned id held forgotten →
    namedCursor frame = some id ∧ (state.cursors.cursors[id]? = none → held = none) ∧ (forgotten = true → held = none)
  paged : ∀ id through, x.paged = some (id,through) → frame.opcode = .cursorFetch ∧ namedCursor frame = some id ∧
    state.cursors.cursors[id]? ≠ none ∧ ∃ txn, session.txnOf frame = .ok txn ∧ through = txn.map (·.id)
  aside : isCursorRequest frame = true → x.client = session.toClient ∧
    ((frame.opcode = .cursorFetch → frame.txnId = 0) → x.engine = state.engine)

def Effects (state : ServerState) (session : Session) (frame : Frame) (m : Moment)
    (act : ServerState → Session → Handled) : Prop :=
  ∃ x : Effect, x.Sound state session frame m ∧ ∀ state' session', SameApart state state' session session' →
    (∀ id, namedCursor frame = some id → state'.cursors.cursors[id]? = state.cursors.cursors[id]?) →
    act state' session' = x.on m.now state' session'

theorem Effects.congr {act act' : ServerState → Session → Handled} (effects : Effects state session frame m act)
    (agree : ∀ state' session', SameApart state state' session session' → act' state' session' = act state' session') :
    Effects state session frame m act' := by
  obtain ⟨x,sound,does⟩ := effects
  exact ⟨x,sound,fun state' session' same held => (agree state' session' same).trans (does state' session' same held)⟩

theorem effects_within (served : Served) (keyed : session.toClient.Keyed → served.client.Keyed)
    (aside : isCursorRequest frame = true → served.client = session.toClient ∧ served.engine = state.engine) :
    Effects state session frame m served.within := by
  refine ⟨⟨served.engine,served.client,served.started,served.reply,.untouched,none⟩,⟨keyed,?_,?_,?_,?_⟩,
    fun _ _ _ _ => rfl⟩
  · rintro _ _ _ _ ⟨⟩
  · rintro _ _ _ ⟨⟩
  · rintro _ _ ⟨⟩
  · intro isCursor
    obtain ⟨client,engine⟩ := aside isCursor
    exact ⟨client,fun _ => engine⟩

theorem effects_refuse (err : Error) : Effects state session frame m
    fun state' session' => (Served.refuse state'.engine session'.toClient err).within state' session' :=
  (effects_within (.refuse state.engine session.toClient err) id fun _ => ⟨rfl,rfl⟩).congr
    fun _ _ same => by rw [same.engine,same.client]

theorem effects_unless (refuses : Client → Bool) (err : Error) {act : ServerState → Session → Handled}
    (passed : Effects state session frame m act) : Effects state session frame m fun state' session' =>
      if refuses session'.toClient then (Served.refuse state'.engine session'.toClient err).within state' session'
      else act state' session' := by
  by_cases refused : refuses session.toClient = true
  · refine (effects_refuse err).congr fun _ _ same => ?_
    rw [same.client,if_pos refused]
  · refine passed.congr fun _ _ same => ?_
    rw [same.client,if_neg refused]

theorem effects_given {α : Type} {read : Result α} {next : α → ServerState → Session → Handled}
    (passed : ∀ a, read = .ok a → Effects state session frame m (next a)) :
    Effects state session frame m fun state' session' => .given state' session' read (next · state' session') := by
  cases read with
  | error err => exact effects_refuse err
  | ok a => exact passed a rfl

theorem effects_close {id : Nat} (named : namedCursor frame = some id) :
    Effects state session frame m fun state' session' => handleCursorClose state' session' frame id := by
  refine ⟨⟨state.engine,session.toClient,[],.ok (okOk frame),.turned id none true,none⟩,⟨fun keyed => keyed,?_,?_,?_,?_⟩,
    ?_⟩
  · rintro _ _ _ _ ⟨⟩
  · rintro _ _ _ ⟨⟩
    exact ⟨named,fun _ => rfl,fun _ => rfl⟩
  · rintro _ _ ⟨⟩
  · exact fun _ => ⟨rfl,fun _ => rfl⟩
  · intro state' session' same _
    have closed : state'.cursors.cursors.erase id = state'.cursors.cursors.alter id fun _ => none := by
      apply ExtTreeMap.ext_getElem?
      intro other
      rw [getElem?_erase_eq,getElem?_alter_eq]
    simp only [handleCursorClose,close,Effect.on,closed,← same.engine,← same.client,if_true]

variable [Host]

theorem effects_evaluate (notCursor : isCursorRequest frame = false) (query : Evaluation) (run : Source → Result Reply) :
    Effects state session frame m fun state' session' =>
      (evaluate m state'.engine session'.toClient frame query run).within state' session' := by
  have client : (evaluate m state.engine session.toClient frame query run).client = session.toClient :=
    Served.given_elim (P := fun x => x.client = session.toClient) (fun _ => rfl) fun _ _ => by split <;> rfl
  refine (effects_within (evaluate m state.engine session.toClient frame query run) (fun keyed => by rwa [client])
    fun isCursor => ?_).congr fun _ _ same => ?_
  · simp [notCursor] at isCursor
  · rw [same.engine,same.client]

variable [Ranked]

theorem effects_find (notCursor : isCursorRequest frame = false) (q : FindQuery) :
    Effects state session frame m fun state' session' => handleFind config m state' session' frame q := by
  unfold handleFind
  cases chosen : session.txnOf frame with
  | error err =>
    refine (effects_refuse err).congr fun state' session' same => ?_
    rw [same.client,chosen]
  | ok txn =>
    have quiet (reply : Outcome Reply) (change : CursorChange)
        (opens : ∀ query ordered baseRank through, change = .opened query ordered baseRank through →
          through = txn.map (·.id)) (turns : ∀ id held forgotten, change ≠ .turned id held forgotten) :
        Effect.Sound ⟨(planFirst config m state.engine txn q).engine,session.toClient,
          (planFirst config m state.engine txn q).started,reply,change,none⟩ state session frame m := by
      refine ⟨fun keyed => keyed,?_,?_,?_,?_⟩
      · intro query ordered baseRank through is
        exact ⟨notCursor,txn,chosen,opens query ordered baseRank through is⟩
      · intro id held forgotten is
        exact absurd is (turns id held forgotten)
      · rintro _ _ ⟨⟩
      · intro isCursor
        simp [notCursor] at isCursor
    cases found : (planFirst config m state.engine txn q).found with
    | error err =>
      refine ⟨_,quiet (.err err) .untouched (by simp) (by simp),fun state' session' same _ => ?_⟩
      simp only [Effect.on,same.engine,← same.client] at chosen found ⊢
      simp only [chosen,found]
    | ok first =>
      obtain ⟨rows,remaining,baseRank⟩ := first
      by_cases last : remaining.isEmpty = true
      · refine ⟨_,quiet (.ok ⟨.queryResult,frame.txnId.toNat,.page rows none⟩) .untouched (by simp) (by simp),
          fun state' session' same _ => ?_⟩
        simp only [Effect.on,same.engine,← same.client] at chosen found ⊢
        simp only [chosen,found,if_pos last]
      · refine ⟨_,quiet (.ok ⟨.queryResult,frame.txnId.toNat,.page rows (some state.cursors.nextId)⟩)
          (.opened q remaining baseRank (txn.map (·.id))) ?_ (by simp),fun state' session' same _ => ?_⟩
        · rintro _ _ _ _ ⟨⟩
          rfl
        · simp only [Effect.on,same.engine,← same.client,← same.nextId] at chosen found ⊢
          simp only [chosen,found,if_neg last]

theorem effects_fetch {req : CursorFetchRequest} (isFetch : frame.opcode = .cursorFetch)
    (named : namedCursor frame = some req.cursorId) :
    Effects state session frame m fun state' session' => handleCursorFetch m state' session' frame req := by
  unfold handleCursorFetch
  cases chosen : session.txnOf frame with
  | error err =>
    refine (effects_refuse err).congr fun state' session' same => ?_
    rw [same.client,chosen]
  | ok txn =>
    obtain ⟨turn,turned⟩ : ∃ turn, turn =
      fetchHeld state.cursors.cursors[req.cursorId]? state.engine txn req.cursorId req.limit m.now := ⟨_,rfl⟩
    have sound (reply : Outcome Reply) (forgotten : Bool) (paged : Option (Nat × Option TxnId))
        (pages : ∀ id through, paged = some (id,through) → id = req.cursorId ∧ through = txn.map (·.id) ∧
          state.cursors.cursors[id]? ≠ none) (last : forgotten = true → turn.held = none) :
        Effect.Sound ⟨turn.engine,session.toClient,[],reply,.turned req.cursorId turn.held forgotten,paged⟩ state
          session frame m := by
      refine ⟨fun keyed => keyed,?_,?_,?_,fun _ => ⟨rfl,?_⟩⟩
      · rintro _ _ _ _ ⟨⟩
      · rintro _ _ _ ⟨⟩
        refine ⟨named,fun absent => ?_,last⟩
        rw [turned,fetchHeld_none absent]
      · intro id through is
        obtain ⟨rfl,rfl,isOpen⟩ := pages id through is
        exact ⟨isFetch,named,isOpen,txn,chosen,rfl⟩
      · intro outside
        obtain rfl : none = txn := Except.ok.inj ((if_pos (outside isFetch)).symm.trans chosen)
        rw [turned]
        cases held : state.cursors.cursors[req.cursorId]? with
        | none => rfl
        | some entry => exact fetchHeld_engine entry
    cases page : turn.page with
    | error err =>
      refine ⟨_,sound (.err err) false none (by simp) (by simp),fun state' session' same held => ?_⟩
      simp only [fetchWith,held _ named,same.engine,← same.client] at chosen ⊢
      simp only [chosen,← turned,page,Effect.on,Bool.false_eq_true,if_false]
    | ok page' =>
      have isOpen : state.cursors.cursors[req.cursorId]? ≠ none := by
        intro absent
        rw [turned,fetchHeld_none absent] at page
        cases page
      refine ⟨_,sound
        (.ok ⟨.queryResult,frame.txnId.toNat,.page page'.rows (if page'.more then some req.cursorId else none)⟩)
        (!page'.more) (some (req.cursorId,txn.map (·.id))) ?_ ?_,fun state' session' same held => ?_⟩
      · rintro _ _ ⟨⟩
        exact ⟨rfl,rfl,isOpen⟩
      · intro last
        rw [turned] at page ⊢
        exact fetchHeld_last page (by simpa using last)
      · simp only [fetchWith,held _ named,same.engine,← same.client] at chosen ⊢
        simp only [chosen,← turned,page,Effect.on]
        cases page'.more <;> rfl

variable [KeyText]

theorem effects_query (notCursor : isCursorRequest frame = false) (req : ReadRequest) :
    Effects state session frame m fun state' session' => handleQuery config m state' session' frame req := by
  cases req with
  | find q => exact effects_find notCursor q
  | _ => exact effects_evaluate notCursor _ _

theorem handle_effects : Effects state session frame m fun state' session' => handle config m state' session' frame := by
  refine effects_unless (fun client => config.auth.enabled && !client.authenticated && requiresAuth frame.opcode) _ ?_
  cases op : frame.opcode with
  | query => exact effects_given fun req _ => effects_given fun _ _ => effects_query (by simp [isCursorRequest,op]) _
  | cursorFetch =>
    exact effects_given fun req read => effects_given fun _ _ => effects_fetch op (by simp only [namedCursor,op,read])
  | cursorClose => exact effects_given fun id read => effects_close (by simp only [namedCursor,op,read])
  | _ =>
    refine (effects_within (handleEngine config m state.engine session.toClient frame)
      (fun keyed => handleEngine_covers keyed.covers) fun isCursor => ?_).congr fun _ _ same => ?_
    · simp [isCursorRequest,op] at isCursor
    · rw [same.engine,same.client]

end Effects
namespace Hub

def fresh (engine : Engine) (cursorTimeout : Nat) : Hub := ⟨⟨engine,.new cursorTimeout⟩,∅,1,∅⟩

def cleanup (state : ServerState) (session : Session) : ServerState :=
  ⟨session.transactions.toList.foldl (fun e p => e.rollback p.2.id) state.engine,
    state.cursors.closeAll session.cursorIds.toList⟩

def opened (h : Hub) (who : Nat) : Option (Nat × Option TxnId) → ExtTreeMap Nat (Nat × Option TxnId) compare
  | none => h.openers
  | some (id,txn) => h.openers.insert id (who,txn)

def shownOf (who : Nat) (frame : Frame) (response : Response) (paged : Option (Nat × Option TxnId)) : List Shown :=
  .replied who frame response::(paged.map (fun p => Shown.paged p.1 p.2)).toList

def handled (h : Hub) (who : Nat) (x : Handled) : Hub :=
  { h with state := x.state, sessions := h.sessions.insert who x.session, openers := h.opened who x.opened }

section
variable [Host] [Ranked] [KeyText] [Gateway] (config : ServerConfig)

/-- There is no step of a connection that is not there, and none where the request panics. -/
def step (h : Hub) : HubAct → Option (Hub × List Shown)
  | .connect => some ({ h with
      sessions := h.sessions.insert h.connectionCounter (.fresh h.connectionCounter)
      connectionCounter := h.connectionCounter + 1 },[])
  | .request who frame m => match h.sessions[who]? with
    | none => none
    | some session =>
      let handled := handle config m h.state session frame
      match handled.response frame with
      | none => none
      | some response => some ({ h with
          state := handled.state
          sessions := h.sessions.insert who handled.session
          openers := h.opened who handled.opened },shownOf who frame response handled.paged)
  | .disconnect who => match h.sessions[who]? with
    | none => none
    | some session => some ({ h with state := cleanup h.state session, sessions := h.sessions.erase who },[])
  | .reapCursors now => some ({ h with state := { h.state with cursors := h.state.cursors.reap now } },[])
  | .reapTransactions now =>
    some ({ h with state := { h.state with engine := (h.state.engine.reapTransactions now).1 } },[])
  | .gc rewritten => some ({ h with state := { h.state with engine := (h.state.engine.gc rewritten).1 } },[])

/-- A cursor request names no cursor of another connection, and a fetch comes in the cursor's transaction. -/
def Respects (h : Hub) : HubAct → Prop
  | .request who frame _ => ∀ id ∈ namedCursor frame, ∀ p ∈ h.openers[id]?,
      p.1 = who ∧ (frame.opcode = .cursorFetch → frame.txnId.toNat = p.2.getD 0)
  | _ => True

instance (h : Hub) : (act : HubAct) → Decidable (Respects h act)
  | .request who frame _ => inferInstanceAs (Decidable (∀ id ∈ namedCursor frame, ∀ p ∈ h.openers[id]?,
      p.1 = who ∧ (frame.opcode = .cursorFetch → frame.txnId.toNat = p.2.getD 0)))
  | .connect => .isTrue trivial
  | .disconnect _ => .isTrue trivial
  | .reapCursors _ => .isTrue trivial
  | .reapTransactions _ => .isTrue trivial
  | .gc _ => .isTrue trivial

end

/-- What is left without the cursor requests of all connections but one. -/
def stays (a : Nat) : HubAct → Bool
  | .request who frame _ => !isCursorRequest frame || who == a
  | _ => true

/-- Another connection fetches outside of its transactions: a fetch inside one puts off its timeout. -/
def Outside (a : Nat) : HubAct → Prop
  | .request who frame _ => who ≠ a → frame.opcode = .cursorFetch → frame.txnId = 0
  | _ => True

instance (a : Nat) : DecidablePred (Outside a)
  | .request who frame _ => inferInstanceAs (Decidable (who ≠ a → frame.opcode = .cursorFetch → frame.txnId = 0))
  | .connect => .isTrue trivial
  | .disconnect _ => .isTrue trivial
  | .reapCursors _ => .isTrue trivial
  | .reapTransactions _ => .isTrue trivial
  | .gc _ => .isTrue trivial

def repliedTo (a : Nat) : Shown → Bool
  | .replied who _ _ => who == a
  | .paged _ _ => false

/-- A cursor has an opener, the ids are handed out in order, and a session lists only its own cursors. -/
structure Kept (h : Hub) : Prop where
  noted : ∀ id : Nat, h.openers[id]? = none → h.state.cursors.cursors[id]? = none
  below : ∀ (id : Nat) p, h.openers[id]? = some p → id < h.state.cursors.nextId
  own : ∀ (who : Nat) session, h.sessions[who]? = some session → ∀ id ∈ session.cursorIds,
    ∃ txn, h.openers[id]? = some (who,txn)
  keyed : ∀ (who : Nat) session, h.sessions[who]? = some session → session.toClient.Keyed
  inside : ∀ (id : Nat) owner txn, h.openers[id]? = some (owner,some txn) → txn ≠ 0

theorem fresh_kept (engine : Engine) (cursorTimeout : Nat) : Kept (fresh engine cursorTimeout) := by
  refine ⟨?_,?_,?_,?_,?_⟩ <;> simp [fresh,new]

section
variable {h h' : Hub} {id who : Nat} {act : HubAct} {a : Nat} {g : Hub}

theorem Kept.opened_on (kept : Kept h) (x : Effect) (time : Nat) (session : Session) (who : Nat)
    {p : Nat × Option TxnId} (found : h.openers[id]? = some p) :
    (h.opened who (x.on time h.state session).opened)[id]? = some p := by
  unfold Effect.on
  split
  · exact found
  · have older := kept.below id p found
    rw [Hub.opened,getElem?_insert_eq,if_neg (by omega)]
    exact found
  · exact found

theorem Kept.opener_inside (kept : Kept h) {session : Session} (held : h.sessions[who]? = some session)
    (chosen : session.txnOf frame = .ok txn) {t : TxnId} (same : txn.map (·.id) = some t) : t ≠ 0 := by
  rw [txnOf_id (kept.keyed who session held) chosen] at same
  split at same
  · cases same
  · rename_i inside
    cases same
    exact fun zero => inside (UInt64.toNat_inj.mp zero)

/-- A step that opens no cursor and has no session list one. -/
structure Shrinks (h h' : Hub) : Prop where
  openers : h'.openers = h.openers
  nextId : h'.state.cursors.nextId = h.state.cursors.nextId
  held : ∀ id : Nat, h.state.cursors.cursors[id]? = none → h'.state.cursors.cursors[id]? = none
  sessions : ∀ (who : Nat) session, h'.sessions[who]? = some session → h.sessions[who]? = some session ∨
    session = .fresh who

theorem Kept.shrink (kept : Kept h) (shrinks : Shrinks h h') : Kept h' := by
  refine ⟨?_,?_,?_,?_,?_⟩
  · rw [shrinks.openers]
    exact fun id absent => shrinks.held id (kept.noted id absent)
  · rw [shrinks.openers,shrinks.nextId]
    exact kept.below
  · intro who session found id inside
    rcases shrinks.sessions who session found with before | rfl
    · rw [shrinks.openers]
      exact kept.own who session before id inside
    · exact absurd inside ExtTreeSet.not_mem_empty
  · intro who session found
    rcases shrinks.sessions who session found with before | rfl
    · exact kept.keyed who session before
    · intro id txn listed
      cases listed.symm.trans ExtTreeMap.getElem?_empty
  · rw [shrinks.openers]
    exact kept.inside

/-- Two servers that one connection cannot tell apart. -/
structure Alike (a : Nat) (h g : Hub) : Prop where
  engine : g.state.engine = h.state.engine
  nextId : g.state.cursors.nextId = h.state.cursors.nextId
  timeout : g.state.cursors.timeout = h.state.cursors.timeout
  counter : g.connectionCounter = h.connectionCounter
  openers : g.openers = h.openers
  clients : ∀ who : Nat, g.sessions[who]?.map (·.toClient) = h.sessions[who]?.map (·.toClient)
  mine : g.sessions[a]? = h.sessions[a]?
  entries : ∀ (id : Nat) txn, h.openers[id]? = some (a,txn) →
    g.state.cursors.cursors[id]? = h.state.cursors.cursors[id]?

theorem Alike.session (alike : Alike a h g) {session : Session} (held : h.sessions[who]? = some session) :
    ∃ session', g.sessions[who]? = some session' ∧ SameApart h.state g.state session session' := by
  have client := alike.clients who
  rw [held] at client
  obtain ⟨session',held',same⟩ := Option.map_eq_some_iff.mp client
  exact ⟨session',held',alike.engine,alike.nextId,alike.timeout,same⟩

theorem clients_insert {sessions sessions' : ExtTreeMap Nat Session compare} {session session' : Session}
    (same : session'.toClient = session.toClient)
    (before : ∀ who : Nat, sessions'[who]?.map (·.toClient) = sessions[who]?.map (·.toClient)) (other : Nat) :
    (sessions'.insert who session')[other]?.map (·.toClient) =
      (sessions.insert who session)[other]?.map (·.toClient) := by
  rw [getElem?_insert_eq,getElem?_insert_eq]
  split
  · exact congrArg some same
  · exact before other

theorem Alike.on (alike : Alike a h g) {session session' : Session} (same : SameApart h.state g.state session session')
    (mine : who = a → session' = session) (x : Effect) (time : Nat) :
    Alike a (h.handled who (x.on time h.state session)) (g.handled who (x.on time g.state session')) := by
  have own {next next' : Session} (eq : who = a → next' = next) :
      (g.sessions.insert who next')[a]? = (h.sessions.insert who next)[a]? := by
    rw [getElem?_insert_eq,getElem?_insert_eq]
    split
    · rename_i isMine
      rw [eq isMine]
    · exact alike.mine
  unfold handled Effect.on
  split
  · exact { alike with
      engine := rfl
      clients := clients_insert rfl alike.clients
      mine := own fun isMine => by rw [mine isMine] }
  · refine ⟨rfl,congrArg (· + 1) alike.nextId,alike.timeout,alike.counter,?_,clients_insert rfl alike.clients,
      own fun isMine => by rw [mine isMine,same.nextId],?_⟩
    · simp only [opened,alike.openers,same.nextId]
    · intro id txn noted
      simp only [openAt,getElem?_insert_eq,same.nextId]
      rcases of_getElem?_insert noted with ⟨rfl,_⟩ | ⟨other,before⟩
      · rw [if_pos rfl,if_pos rfl]
      · rw [alike.entries id txn before]
  · refine { alike with
      engine := rfl
      clients := clients_insert rfl alike.clients
      mine := own fun isMine => by rw [mine isMine]
      entries := fun id txn noted => ?_ }
    rw [getElem?_alter_eq,getElem?_alter_eq,alike.entries id txn noted]

variable [Host] [Ranked] [KeyText] [Gateway] {config : ServerConfig} {now : List Shown}

omit [Host] [Ranked] [KeyText] in
theorem Kept.request (kept : Kept h) {session : Session} (held : h.sessions[who]? = some session) {x : Effect}
    (sound : x.Sound h.state session frame m) : Kept (h.handled who (x.on m.now h.state session)) := by
  have persists {id : Nat} {p : Nat × Option TxnId} (found : h.openers[id]? = some p) :=
    kept.opened_on x m.now session who found
  have keyed : (x.on m.now h.state session).session.toClient.Keyed := by
    unfold Effect.on
    split <;> exact sound.keyed (kept.keyed who session held)
  have listed (id : Nat) (inside : id ∈ session.cursorIds) :
      ∃ txn, (h.opened who (x.on m.now h.state session).opened)[id]? = some (who,txn) := by
    obtain ⟨txn,noted⟩ := kept.own who session held id inside
    exact ⟨txn,persists noted⟩
  have own : ∀ id ∈ (x.on m.now h.state session).session.cursorIds,
      ∃ txn, (h.opened who (x.on m.now h.state session).opened)[id]? = some (who,txn) := by
    intro id
    revert listed
    unfold Effect.on
    split
    · exact fun listed => listed id
    · intro listed inside
      rcases ExtTreeSet.mem_insert.mp inside with same | before
      · rw [← LawfulEqCmp.compare_eq_iff_eq.mp same]
        exact ⟨_,getElem?_insert_eq .. |>.trans (if_pos rfl)⟩
      · exact listed id before
    · intro listed inside
      split at inside
      · exact listed id (ExtTreeSet.mem_erase.mp inside).2
      · exact listed id inside
  refine ⟨?_,?_,forall_insert own fun owner other _ found id inside => ?_,
    forall_insert keyed fun owner other _ found => kept.keyed owner other found,?_⟩
  · intro id
    unfold handled Effect.on
    split
    · exact kept.noted id
    · intro absent
      rw [Hub.opened,getElem?_insert_eq] at absent
      rw [openAt,getElem?_insert_eq]
      split at absent
      · cases absent
      · rename_i different
        rw [if_neg different,kept.noted id absent]
    · rename_i turned
      intro absent
      rw [getElem?_alter_eq]
      split
      · rename_i same
        exact (sound.turned _ _ _ turned).2.1 (same ▸ kept.noted id absent)
      · exact kept.noted id absent
  · unfold handled Effect.on
    split
    · exact kept.below
    · exact forall_insert (Nat.lt_succ_self _) fun id p _ found => Nat.lt_succ_of_lt (kept.below id p found)
    · exact kept.below
  · obtain ⟨txn,noted⟩ := kept.own owner other found id inside
    exact ⟨txn,persists noted⟩
  · intro id owner t
    unfold handled Effect.on
    split
    · exact kept.inside id owner t
    · rename_i opened
      intro found
      rcases of_getElem?_insert found with ⟨_,same⟩ | ⟨_,before⟩
      · obtain ⟨_,txn,chosen,through⟩ := sound.opened _ _ _ _ opened
        exact kept.opener_inside held chosen (through.symm.trans (Prod.mk.inj same).2.symm)
      · exact kept.inside id owner t before
    · exact kept.inside id owner t

theorem step_request (taken : step config h (.request who frame m) = some (h',now)) : ∃ session response, ∃ x : Effect,
      h.sessions[who]? = some session ∧ x.Sound h.state session frame m ∧
      (∀ state' session', SameApart h.state state' session session' →
        (∀ id, namedCursor frame = some id → state'.cursors.cursors[id]? = h.state.cursors.cursors[id]?) →
        handle config m state' session' frame = x.on m.now state' session') ∧
      (x.on m.now h.state session).response frame = some response ∧
      h' = h.handled who (x.on m.now h.state session) ∧ now = shownOf who frame response x.paged := by
  simp only [step] at taken
  cases held : h.sessions[who]? with
  | none =>
    rw [held] at taken
    cases taken
  | some session =>
    have effects : Effects h.state session frame m fun state' session' => handle config m state' session' frame :=
      handle_effects
    obtain ⟨x,sound,does⟩ := effects
    simp only [held,does h.state session ⟨rfl,rfl,rfl,rfl⟩ fun _ _ => rfl] at taken
    split at taken
    · cases taken
    rename_i response replied
    cases taken
    exact ⟨session,response,x,rfl,sound,does,replied,rfl,by rw [x.on_paged]⟩

theorem step_shrinks (other : ∀ who frame m, act ≠ .request who frame m)
    (taken : step config h act = some (h',now)) : Shrinks h h' ∧ now = [] := by
  cases act with
  | request who frame m => exact absurd rfl (other who frame m)
  | connect =>
    cases taken
    refine ⟨⟨rfl,rfl,fun _ absent => absent,fun who session found => ?_⟩,rfl⟩
    rcases of_getElem?_insert found with ⟨rfl,rfl⟩ | ⟨_,before⟩
    · exact Or.inr rfl
    · exact Or.inl before
  | disconnect who =>
    simp only [step] at taken
    split at taken
    · cases taken
    cases taken
    refine ⟨⟨rfl,(closeAll_same ..).1,fun id absent => ?_,fun who session found =>
      Or.inl (of_getElem?_erase found).2⟩,rfl⟩
    rw [cleanup,cursors_closeAll,absent,ite_self]
  | reapCursors time =>
    cases taken
    refine ⟨⟨rfl,rfl,fun id absent => ?_,fun _ _ found => Or.inl found⟩,rfl⟩
    rw [cursors_reap,absent]
    rfl
  | reapTransactions time | gc rewritten =>
    cases taken
    exact ⟨⟨rfl,rfl,fun _ absent => absent,fun _ _ found => Or.inl found⟩,rfl⟩

theorem Kept.step (kept : Kept h) (taken : step config h act = some (h',now)) :
    Kept h' ∧ ∀ (id : Nat) p, h.openers[id]? = some p → h'.openers[id]? = some p := by
  by_cases other : ∀ who frame m, act ≠ .request who frame m
  · have shrinks := (step_shrinks other taken).1
    exact ⟨kept.shrink shrinks,fun id p found => shrinks.openers ▸ found⟩
  · push Not at other
    obtain ⟨who,frame,m,rfl⟩ := other
    obtain ⟨session,_,x,held,sound,_,_,rfl,_⟩ := step_request taken
    exact ⟨kept.request held sound,fun id p found => kept.opened_on x m.now session who found⟩

theorem Kept.paged (kept : Kept h) (respects : Respects h act) (taken : Hub.step config h act = some (h',now))
    {through : Option TxnId} (shown : .paged id through ∈ now) : ∃ owner, h.openers[id]? = some (owner,through) := by
  by_cases other : ∀ who frame m, act ≠ .request who frame m
  · rw [(step_shrinks other taken).2] at shown
    cases shown
  · push Not at other
    obtain ⟨who,frame,m,rfl⟩ := other
    obtain ⟨session,_,x,held,sound,_,_,rfl,rfl⟩ := step_request taken
    have paged : x.paged = some (id,through) := by
      cases paged : x.paged with
      | none => simp [shownOf,paged] at shown
      | some p => simpa [shownOf,paged,eq_comm,Prod.ext_iff] using shown
    obtain ⟨isFetch,named,isOpen,txn,chosen,rfl⟩ := sound.paged id through paged
    cases noted : h.openers[id]? with
    | none => exact absurd (kept.noted id noted) isOpen
    | some p =>
      obtain ⟨owner,opened⟩ := p
      obtain ⟨_,inSame⟩ := respects id named (owner,opened) noted
      have number := inSame isFetch
      refine ⟨owner,congrArg (fun t => some (owner,t)) ?_⟩
      rw [txnOf_id (kept.keyed who session held) chosen]
      cases opened with
      | none =>
        have outside : frame.txnId = 0 := UInt64.toNat_inj.mp number
        rw [if_pos outside]
      | some t =>
        have inside : frame.txnId ≠ 0 := by
          intro zero
          rw [zero] at number
          exact kept.inside id owner t noted number.symm
        rw [if_neg inside,number]
        rfl

omit [Host] [Ranked] [KeyText] in
theorem namedCursor_isCursor (named : namedCursor frame = some id) : isCursorRequest frame = true := by
  unfold namedCursor at named
  split at named
  · rename_i isFetch
    simp [isCursorRequest,isFetch]
  · rename_i isClose
    simp [isCursorRequest,isClose]
  · cases named

theorem Alike.request (kept : Kept h) (kept' : Kept g) (alike : Alike a h g)
    (respects : Respects h (.request who frame m)) (own : isCursorRequest frame = true → who = a)
    (taken : step config h (.request who frame m) = some (h',now)) :
    ∃ g', step config g (.request who frame m) = some (g',now) ∧ Alike a h' g' := by
  obtain ⟨session,response,x,held,_,does,replied,rfl,rfl⟩ := step_request taken
  obtain ⟨session',held',same⟩ := alike.session held
  have done : handle config m g.state session' frame = x.on m.now g.state session' := by
    refine does g.state session' same fun id named => ?_
    cases noted : h.openers[id]? with
    | none => rw [kept.noted id noted,kept'.noted id (alike.openers ▸ noted)]
    | some p =>
      obtain ⟨owner,txn⟩ := p
      have isMine := (respects id named (owner,txn) noted).1.trans (own (namedCursor_isCursor named))
      exact alike.entries id txn (isMine ▸ noted)
  have mine (isMine : who = a) : session' = session := by
    subst isMine
    exact Option.some.inj (held'.symm.trans (alike.mine.trans held))
  refine ⟨_,?_,alike.on same mine x m.now⟩
  simp only [step,held',done,(x.on_response ..).trans replied,x.on_paged]
  rfl

theorem Alike.left (alike : Alike a h g) (respects : Respects h (.request who frame m)) (other : who ≠ a)
    (outside : frame.opcode = .cursorFetch → frame.txnId = 0) (isCursor : isCursorRequest frame = true)
    (taken : step config h (.request who frame m) = some (h',now)) : Alike a h' g ∧ now.filter (repliedTo a) = [] := by
  obtain ⟨session,_,x,held,sound,_,_,rfl,rfl⟩ := step_request taken
  obtain ⟨client,unmoved⟩ := sound.aside isCursor
  have engine : g.state.engine = x.engine := alike.engine.trans (unmoved outside).symm
  have clients (next : Session) (unchanged : next.toClient = session.toClient) (someone : Nat) :
      g.sessions[someone]?.map (·.toClient) = (h.sessions.insert who next)[someone]?.map (·.toClient) := by
    rw [getElem?_insert_eq]
    split
    · rename_i isWho
      rw [← isWho,alike.clients,held,Option.map_some,Option.map_some,unchanged]
    · exact alike.clients someone
  have mine (next : Session) : g.sessions[a]? = (h.sessions.insert who next)[a]? := by
    rw [getElem?_insert_eq,if_neg other,alike.mine]
  constructor
  · unfold handled Effect.on
    split
    · exact { alike with engine, clients := clients _ client, mine := mine _ }
    · rename_i opens
      cases isCursor.symm.trans (sound.opened _ _ _ _ opens).1
    · rename_i turned
      refine { alike with engine, clients := clients _ client, mine := mine _, entries := fun id txn noted => ?_ }
      rw [alike.entries id txn noted,getElem?_alter_eq,if_neg]
      rintro rfl
      exact other (respects _ (sound.turned _ _ _ turned).1 (a,txn) noted).1.symm
  · cases x.paged <;> simp [shownOf,repliedTo,other]

theorem Alike.disconnect (kept : Kept h) (kept' : Kept g) (alike : Alike a h g)
    (taken : step config h (.disconnect who) = some (h',now)) :
    ∃ g', step config g (.disconnect who) = some (g',now) ∧ Alike a h' g' := by
  simp only [step] at taken
  split at taken
  · cases taken
  rename_i session held
  cases taken
  obtain ⟨session',held',same⟩ := alike.session held
  obtain ⟨nextId,timeout⟩ := h.state.cursors.closeAll_same session.cursorIds.toList
  obtain ⟨nextId',timeout'⟩ := g.state.cursors.closeAll_same session'.cursorIds.toList
  refine ⟨{ g with state := cleanup g.state session', sessions := g.sessions.erase who },by simp only [step,held'],
    ?_,nextId'.trans (alike.nextId.trans nextId.symm),timeout'.trans (alike.timeout.trans timeout.symm),alike.counter,
    alike.openers,?_,?_,?_⟩
  · simp only [cleanup,same.client,same.engine]
  · intro someone
    rw [getElem?_erase_eq,getElem?_erase_eq]
    split
    · rfl
    · exact alike.clients someone
  · rw [getElem?_erase_eq,getElem?_erase_eq,alike.mine]
  · intro id txn noted
    simp only [cleanup,cursors_closeAll,ExtTreeSet.mem_toList]
    by_cases isMine : who = a
    · subst isMine
      have own : session' = session := Option.some.inj (held'.symm.trans (alike.mine.trans held))
      rw [own,alike.entries id txn noted]
    · have apart {listed : Session} {hub : Hub} (fine : Kept hub) (has : hub.sessions[who]? = some listed)
          (same : hub.openers = h.openers) : id ∉ listed.cursorIds := by
        intro inside
        obtain ⟨t,mine⟩ := fine.own who listed has id inside
        rw [same,noted] at mine
        cases mine
        exact isMine rfl
      rw [if_neg (apart kept' held' alike.openers),if_neg (apart kept held rfl),alike.entries id txn noted]

theorem Alike.other (alike : Alike a h g) (unasked : ∀ who frame m, act ≠ .request who frame m)
    (staying : ∀ who, act ≠ .disconnect who) (taken : step config h act = some (h',now)) :
    ∃ g', step config g act = some (g',now) ∧ Alike a h' g' := by
  cases act with
  | request who frame m => exact absurd rfl (unasked who frame m)
  | disconnect who => exact absurd rfl (staying who)
  | connect =>
    cases taken
    refine ⟨_,rfl,{ alike with counter := congrArg (· + 1) alike.counter, clients := ?_, mine := ?_ }⟩
    · rw [alike.counter]
      exact clients_insert rfl alike.clients
    · rw [getElem?_insert_eq,getElem?_insert_eq,alike.counter,alike.mine]
  | reapCursors time =>
    cases taken
    refine ⟨_,rfl,{ alike with entries := fun id txn noted => ?_ }⟩
    rw [cursors_reap,cursors_reap,alike.timeout,alike.entries id txn noted]
  | reapTransactions time =>
    cases taken
    exact ⟨_,rfl,{ alike with engine := congrArg (fun e => (e.reapTransactions time).1) alike.engine }⟩
  | gc rewritten =>
    cases taken
    exact ⟨_,rfl,{ alike with engine := congrArg (fun e => (e.gc rewritten).1) alike.engine }⟩

theorem Alike.matched (kept : Kept h) (kept' : Kept g) (alike : Alike a h g) (respects : Respects h act)
    (outside : Outside a act) (taken : step config h act = some (h',now)) :
    if stays a act = true then ∃ g' now', step config g act = some (g',now') ∧ Alike a h' g' ∧
      now'.filter (repliedTo a) = now.filter (repliedTo a)
    else Alike a h' g ∧ now.filter (repliedTo a) = [] := by
  cases act with
  | request who frame m =>
    by_cases left : isCursorRequest frame = true ∧ who ≠ a
    · rw [if_neg (by simp [stays,left])]
      exact alike.left respects left.2 (outside left.2) left.1 taken
    · have own (isCursor : isCursorRequest frame = true) : who = a := by
        by_contra other
        exact left ⟨isCursor,other⟩
      obtain ⟨g',moved,after⟩ := alike.request kept kept' respects own taken
      rw [if_pos]
      · exact ⟨g',now,moved,after,rfl⟩
      · cases isCursor : isCursorRequest frame with
        | false => simp [stays,isCursor]
        | true => simp [stays,own isCursor]
  | disconnect who =>
    obtain ⟨g',moved,after⟩ := alike.disconnect kept kept' taken
    exact ⟨g',now,moved,after,rfl⟩
  | _ =>
    obtain ⟨g',moved,after⟩ := alike.other (by rintro _ _ _ ⟨⟩) (by rintro _ ⟨⟩) taken
    exact ⟨g',now,moved,after,rfl⟩

/-- Cursor isolation: where the connections keep to their own cursors and transactions, one is answered as it
would be without the cursor requests of the others, as long as these fetch outside of transactions; and a page
comes through the transaction its cursor was opened in. -/
theorem cursors_isolated (engine : Engine) (cursorTimeout : Nat) {acts : List HubAct} {h : Hub} {shown : List Shown}
    (respectful : Along (step config) Respects (fresh engine cursorTimeout) acts)
    (ran : steps (step config) (fresh engine cursorTimeout) acts = some (h,shown)) (a : Nat) :
    ((∀ act ∈ acts, Outside a act) → ∃ g shown',
      steps (step config) (fresh engine cursorTimeout) (acts.filter (stays a)) = some (g,shown') ∧
      shown'.filter (repliedTo a) = shown.filter (repliedTo a) ∧
      ∀ (id : Nat) txn, h.openers[id]? = some (a,txn) →
        g.state.cursors.cursors[id]? = h.state.cursors.cursors[id]?) ∧
    ∀ id through, .paged id through ∈ shown → ∃ owner, h.openers[id]? = some (owner,through) := by
  have initially : Alike a (fresh engine cursorTimeout) (fresh engine cursorTimeout) :=
    ⟨rfl,rfl,rfl,rfl,rfl,fun _ => rfl,rfl,fun _ _ _ => rfl⟩
  have kept := fresh_kept engine cursorTimeout
  constructor
  · intro outside
    have followed (h g : Hub) (act : HubAct) (h' : Hub) (now : List Shown) (inside : act ∈ acts)
        (both : Kept h ∧ Kept g ∧ Alike a h g) (respects : Respects h act)
        (taken : step config h act = some (h',now)) :
        if stays a act = true then ∃ g' now', step config g act = some (g',now') ∧
          (Kept h' ∧ Kept g' ∧ Alike a h' g') ∧ now'.filter (repliedTo a) = now.filter (repliedTo a)
        else (Kept h' ∧ Kept g ∧ Alike a h' g) ∧ now.filter (repliedTo a) = [] := by
      obtain ⟨kept,kept',alike⟩ := both
      have after := (kept.step taken).1
      have matched := alike.matched kept kept' respects (outside act inside) taken
      split at matched
      · rename_i stayed
        obtain ⟨g',now',moved,alike,seen⟩ := matched
        rw [if_pos stayed]
        exact ⟨g',now',moved,⟨after,(kept'.step moved).1,alike⟩,seen⟩
      · rename_i dropped
        rw [if_neg dropped]
        exact ⟨⟨after,kept',matched.1⟩,matched.2⟩
    obtain ⟨g,shown',ran',⟨_,_,alike⟩,seen⟩ := steps_filtered acts followed ⟨kept,kept,initially⟩ respectful ran
    exact ⟨g,shown',ran',seen,alike.entries⟩
  · refine ((Run.of_along acts respectful ran).invariant (fun shown h => Kept h ∧
      ∀ id through, .paged id through ∈ shown → ∃ owner, h.openers[id]? = some (owner,through)) ⟨kept,by simp⟩ ?_).2
    intro shown h act h' now both respects taken
    obtain ⟨kept,pages⟩ := both
    refine ⟨(kept.step taken).1,fun id through inside => ?_⟩
    rcases List.mem_append.mp inside with before | new
    · obtain ⟨owner,noted⟩ := pages id through before
      exact ⟨owner,(kept.step taken).2 id _ noted⟩
    · obtain ⟨owner,noted⟩ := kept.paged respects taken new
      exact ⟨owner,(kept.step taken).2 id _ noted⟩

end

def ask (who : Nat) (opcode : Opcode) (txnId : UInt64) (payload : Bytes) : HubAct :=
  .request who (plainFrame opcode txnId payload) plainMoment

def threeNotes : List HubAct :=
  [.connect,.connect,ask 1 .mutate 0 [0x61],ask 1 .mutate 0 [0x62],ask 1 .mutate 0 [0x63]]

abbrev runPlain (acts : List HubAct) : Option (Hub × List Shown) :=
  steps (@step plainHost Engine.noRanking namedKey plainGateway plainConfig) (fresh plainState.engine 300) acts

def pagesFor (who : Nat) (shown : List Shown) : List (List RecordId) :=
  shown.filterMap fun
    | .replied owner _ ⟨_,_,_,.page rows _⟩ => if owner = who then some (rows.map (·.id)) else none
    | _ => none

def pagedThrough (shown : List Shown) : List (Nat × Option TxnId) :=
  shown.filterMap fun
    | .paged id through => some (id,through)
    | _ => none

def takenPage : List HubAct := threeNotes ++ [ask 1 .query 0 [],ask 2 .cursorFetch 0 [1],ask 1 .cursorFetch 0 [1]]

/-- The second connection takes a page out of the cursor of the first; and a cursor that was opened inside a
transaction is read outside of it. -/
theorem cursor_fetched_by_another :
    (runPlain takenPage).map (fun p => pagesFor 1 p.2) = some [[System.noteId "a"],[System.noteId "c"]] ∧
    (runPlain (takenPage.filter (stays 1))).map (fun p => pagesFor 1 p.2) =
      some [[System.noteId "a"],[System.noteId "b"]] ∧
    (runPlain (threeNotes ++ [ask 1 .txnBegin 0 [],ask 1 .query 4 [],ask 1 .cursorFetch 0 [1]])).map
      (fun p => (p.1.openers[1]?,pagedThrough p.2)) = some (some (1,some 4),[(1,none)]) := by
  exact ⟨by decide +kernel,by decide +kernel,by decide +kernel⟩

def readInTurn : List HubAct :=
  threeNotes ++ [ask 1 .query 0 [],ask 2 .query 0 [],ask 2 .cursorFetch 0 [2],ask 1 .cursorFetch 0 [1]]

theorem cursors_isolated_readers : ∃ (h : Hub) (shown : List Shown),
    pagesFor 1 shown = [[System.noteId "a"],[System.noteId "b"]] ∧
    (∃ g shown', runPlain (readInTurn.filter (stays 1)) = some (g,shown') ∧
      shown'.filter (repliedTo 1) = shown.filter (repliedTo 1) ∧
      ∀ (id : Nat) txn, h.openers[id]? = some (1,txn) →
        g.state.cursors.cursors[id]? = h.state.cursors.cursors[id]?) ∧
    ∀ id through, .paged id through ∈ shown → ∃ owner, h.openers[id]? = some (owner,through) := by
  have pages : (steps (Run.guarded (@step plainHost Engine.noRanking namedKey plainGateway plainConfig)
      (fun h act => @decide (@Respects plainGateway h act) (@instDecidableRespects plainGateway h act)))
      (fresh plainState.engine 300) readInTurn).map (fun p => pagesFor 1 p.2) =
      some [[System.noteId "a"],[System.noteId "b"]] := by decide +kernel
  obtain ⟨⟨h,shown⟩,ran,seen⟩ := Option.map_eq_some_iff.mp pages
  obtain ⟨along,whole⟩ := Run.along_of_guarded (fun _ _ passed => of_decide_eq_true passed) _ ran
  obtain ⟨isolated,through⟩ := @cursors_isolated plainHost Engine.noRanking namedKey plainGateway plainConfig
    plainState.engine 300 _ h shown along whole 1
  exact ⟨h,shown,seen,isolated (by decide),through⟩

end Hub

end AuraDb.Server
