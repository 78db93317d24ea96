import AuraDb.Server.Dispatch

/-! What a frame has to pass before the engine sees it. Before a token has verified only the handshake and the
probes are answered, and they change nothing but the session's version. -/
namespace AuraDb.Server
open Library Library.Framing Protocol Std
section
variable {e : Engine} {client : Client}

theorem given_started {α : Type} {read : Result α} {next : α → Served}
    (quiet : ∀ a, (next a).started = []) : (Served.given e client read next).started = [] :=
  Served.given_elim (P := fun served => served.started = []) (fun _ => rfl) fun a _ => quiet a

variable [Host] [Ranked] [KeyText] [Gateway] {config : ServerConfig} {m : Moment} {state : ServerState}
  {session : Session} {frame : Frame}

def carriedToken (frame : Frame) : Option String :=
  match frame.opcode with
  | .hello => match Gateway.decodeHello frame.payload with
    | .ok req => req.authToken
    | .error _ => none
  | .auth => match Gateway.decodeAuth frame.payload with
    | .ok token => some token
    | .error _ => none
  | _ => none

def verifies (config : ServerConfig) (frame : Frame) : Bool := (carriedToken frame).any (verifySessionToken config)

/-- A frame of one connection, and the shared state as the other connections have left it. -/
structure Input where
  state : ServerState
  m : Moment
  frame : Frame

structure Exchange where
  input : Input
  handled : Handled

def Exchange.response (x : Exchange) : Option Response := x.handled.response x.input.frame

def talk (config : ServerConfig) : Session → List Input → List Exchange
  | _, [] => []
  | session, i::rest =>
    let handled := handle config i.m i.state session i.frame
    ⟨i,handled⟩::talk config handled.session rest

def Session.fresh (connectionId : Nat) : Session := { connectionId }

/-- A session without a token: nobody has been let in, and it holds nothing. -/
structure Session.Outside (session : Session) : Prop where
  unauthenticated : session.authenticated = false
  transactions : session.transactions = ∅
  stagedWrites : session.stagedWrites = ∅
  cursorIds : session.cursorIds = ∅

structure Handled.Idle (handled : Handled) (state : ServerState) : Prop where
  state : handled.state = state
  started : handled.started = []
  outside : handled.session.Outside

omit [Host] [Ranked] [KeyText] [Gateway] in
theorem refuse_idle (outside : session.Outside) (err : Error) :
    ((Served.refuse state.engine session.toClient err).within state session).Idle state :=
  ⟨rfl,rfl,outside⟩

theorem handle_gated (enabled : config.auth.enabled = true) (outside : session.authenticated = false)
    (gated : requiresAuth frame.opcode = true) : handle config m state session frame =
      (Served.refuse state.engine session.toClient
        (.unauthenticated "authentication required before this operation")).within state session := by
  rw [handle,enabled,outside,gated]
  rfl

theorem handle_free (free : requiresAuth frame.opcode = false) : handle config m state session frame =
    (handleEngine config m state.engine session.toClient frame).within state session := by
  rw [handle,free,Bool.and_false]
  cases op : frame.opcode with
  | query | cursorFetch | cursorClose => cases op ▸ free
  | _ => rfl

theorem handle_idle (enabled : config.auth.enabled = true) (outside : session.Outside)
    (unverified : verifies config frame = false) : (handle config m state session frame).Idle state := by
  cases gated : requiresAuth frame.opcode with
  | true =>
    rw [handle_gated enabled outside.unauthenticated gated]
    exact refuse_idle outside _
  | false =>
    rw [handle_free gated]
    cases op : frame.opcode with
    | hello =>
      simp only [handleEngine,op,handleHello]
      refine Served.given_elim (P := fun served => (served.within state session).Idle state) (refuse_idle outside)
        fun req read => ⟨rfl,rfl,?_,outside.transactions,outside.stagedWrites,outside.cursorIds⟩
      have wrong : req.authToken.any (verifySessionToken config) = false := by
        simpa only [verifies,carriedToken,op,read] using unverified
      simp [Served.within,enabled,wrong,outside.unauthenticated]
    | auth =>
      simp only [handleEngine,op,handleAuth]
      refine Served.given_elim (P := fun served => (served.within state session).Idle state) (refuse_idle outside)
        fun token read => ?_
      have wrong : verifySessionToken config token = false := by
        simpa only [verifies,carriedToken,op,read,Option.any_some] using unverified
      rw [enabled,wrong]
      exact refuse_idle outside _
    | ping | health =>
      simp only [handleEngine,op]
      exact ⟨rfl,rfl,outside⟩
    | _ => cases op ▸ gated

/-- No access before authentication: until a token has verified, no request reaches the engine or the cursors,
the session holds nothing, and a gated request is answered with an error. -/
theorem no_access_before_authentication (enabled : config.auth.enabled = true) {inputs : List Input}
    (unverified : ∀ i ∈ inputs, verifies config i.frame = false) (connectionId : Nat) :
    ∀ x ∈ talk config (.fresh connectionId) inputs, x.handled.Idle x.input.state ∧
      (requiresAuth x.input.frame.opcode = true → x.response.map (·.opcode) = some .error) := by
  have from_outside (session : Session) (outside : session.Outside) : ∀ x ∈ talk config session inputs,
      x.handled.Idle x.input.state ∧
        (requiresAuth x.input.frame.opcode = true → x.response.map (·.opcode) = some .error) := by
    induction inputs generalizing session with
    | nil => simp [talk]
    | cons i rest ih =>
      have idle : (handle config i.m i.state session i.frame).Idle i.state :=
        handle_idle enabled outside (unverified i (by simp))
      intro x inside
      rcases List.mem_cons.mp inside with rfl | later
      · refine ⟨idle,fun gated => ?_⟩
        rw [Exchange.response,handle_gated enabled outside.unauthenticated gated]
        rfl
      · exact ih (fun j inside => unverified j (by simp [inside])) _ idle.outside x later
  exact from_outside _ ⟨rfl,rfl,rfl,rfl⟩

omit [KeyText] [Gateway] [Ranked] in
theorem evaluate_started {query : Evaluation} {run : Source → Result Reply} :
    (evaluate m e client frame query run).started ⊆ [query] := by
  refine Served.given_elim (P := fun served => served.started ⊆ [query]) (fun _ => by simp [Served.refuse])
    fun txn _ => ?_
  split
  · simp [Served.refuse]
  · simp

omit [Ranked] [KeyText] [Gateway] in
theorem handleMutation_started {mutation : Mutation} :
    (handleMutation config m e client frame mutation).started = [] := by
  apply given_started
  intro _
  dsimp only
  split
  · rfl
  split
  · rfl
  · split
    · rfl
    · split <;> rfl

omit [Host] [Ranked] [KeyText] [Gateway] in
theorem handleEnd_started {finish : Transaction → Engine × Outcome Unit} :
    (handleEnd e client frame finish).started = [] := by
  unfold handleEnd
  split <;> rfl

omit [KeyText] in
theorem handleEngine_started :
    ∀ ev ∈ (handleEngine config m e client frame).started, ∃ q analyze, ev = .explain q analyze := by
  have none_of {served : Served} (quiet : served.started = []) :
      ∀ ev ∈ served.started, ∃ q analyze, ev = .explain q analyze := by simp [quiet]
  unfold handleEngine
  split
  · exact none_of (given_started fun _ => rfl)
  · exact none_of (given_started fun _ => by split <;> rfl)
  · exact none_of rfl
  · exact none_of rfl
  · exact none_of (given_started fun _ => given_started fun _ => rfl)
  · exact none_of (given_started fun _ => rfl)
  · exact none_of (given_started fun _ => rfl)
  · exact none_of rfl
  · exact none_of (given_started fun _ => handleMutation_started)
  · refine Served.given_elim (P := fun served => ∀ ev ∈ served.started, ∃ q analyze, ev = .explain q analyze)
      (fun _ => none_of rfl) fun (q,analyze) _ ev inside => ?_
    exact ⟨q,analyze,List.mem_singleton.mp (evaluate_started inside)⟩
  · exact none_of (given_started fun _ => rfl)
  · exact none_of rfl
  · exact none_of handleEnd_started
  · exact none_of handleEnd_started
  · exact none_of rfl

omit [KeyText] [Gateway] in
theorem planFirst_started {txn : Option Transaction} {q : FindQuery} :
    (planFirst config m e txn q).started ⊆ [.read (.find q)] := by
  unfold planFirst
  split
  · simp
  split
  · simp
  · split <;> simp

omit [Gateway] in
theorem handleQuery_started {req : ReadRequest} :
    (handleQuery config m state session frame req).started ⊆ [.read req] := by
  cases req with
  | find q =>
    simp only [handleQuery,handleFind]
    split
    · simp [Served.within,Served.refuse]
    · split
      · exact planFirst_started
      · split <;> exact planFirst_started
  | count q | exist q | aggregate q | searchPage q pageSize cursor => exact evaluate_started

theorem handle_started_read {req : ReadRequest} (started : .read req ∈ (handle config m state session frame).started) :
    ∃ asked, enforceReadLimits config.limits asked = .ok () ∧
      req = asked.withDeadline config.limits.maxQueryTimeMs := by
  revert started
  refine handle_elim (P := fun handled => .read req ∈ handled.started → ∃ asked,
    enforceReadLimits config.limits asked = .ok () ∧ req = asked.withDeadline config.limits.maxQueryTimeMs)
    config m ?_ ?_ ?_ ?_ ?_
  · intro _ started
    cases started
  · intro asked _ accepted started
    cases List.mem_singleton.mp (handleQuery_started started)
    exact ⟨asked,accepted,rfl⟩
  · intro asked _ _ started
    unfold handleCursorFetch at started
    split at started
    · cases started
    · dsimp only at started
      split at started <;> cases started
  · intro _ _ _ started
    cases started
  · intro _ _ started
    obtain ⟨q,analyze,same⟩ := handleEngine_started _ started
    cases same

/-- Limits on evaluations: what the server evaluates is within the bounds exactly where the texts it ranks by are
short enough and it is not a count under a deadline, and for an `explain` where the query sent is within them. -/
theorem reads_within_limits {ev : Evaluation} (started : ev ∈ (handle config m state session frame).started) :
    ev.request.WithinLimits config.limits ↔ ev.SelfLimited config.limits := by
  cases ev with
  | read req =>
    obtain ⟨asked,accepted,rfl⟩ := handle_started_read started
    exact ReadRequest.withinLimits_iff accepted
  | explain q analyze => rfl

end

def plainText (payload : Bytes) : String := String.ofList (payload.map (fun b => Char.ofNat b.toNat))

def noteSearch (limit : Nat) : FindQuery :=
  { collection := "notes", filter := some (.containsText "status" "new note"), limit := some limit }

/-- Payloads for evaluating the model: a text stands for itself, a number for an id or a limit. -/
@[reducible] def plainGateway : Gateway where
  decodeHello payload := .ok ⟨"",1,some (plainText payload)⟩
  decodeAuth payload := .ok (plainText payload)
  decodeSchema _ := .ok System.notes
  decodeName payload := .ok (plainText payload)
  decodeRead payload := match payload with
    | [] => .ok (.find { collection := "notes" })
    | n::_ => .ok (.find (noteSearch n.toNat))
  decodeMutation payload := .ok (.insert "notes" [("id",.text (plainText payload))])
  decodeCursorFetch payload := match payload with
    | [] => .error (.protocol "payload deserialization failed")
    | id::_ => .ok ⟨id.toNat,1⟩
  decodeCursorClose payload := match payload with
    | [] => .error (.protocol "payload deserialization failed")
    | id::_ => .ok id.toNat
  decodeExplain _ := .ok (noteSearch 2000000,true)
  verifyToken hash token := .ok (hash == token)
  explainPlan _ _ _ _ := .null
  estimateMigration _ _ := .ok .null

def plainFrame (opcode : Opcode) (txnId : UInt64) (payload : Bytes) : Frame :=
  ⟨protocolVersion,opcode,0,.none,1,txnId,payload⟩

def plainConfig : ServerConfig := ⟨⟨false,none⟩,⟨1000000,64,64,4096,100000,30000⟩,1,60,true⟩

def plainState : ServerState := ⟨(System.fresh System.notes ⟨60,1⟩).engine,.new 300⟩

def plainMoment : Moment := ⟨0,fun _ => 0,.ok (),.ok ()⟩

def lockedConfig : ServerConfig := { plainConfig with auth := ⟨true,some "secret"⟩ }

def strangerInputs : List Input :=
  [⟨plainState,plainMoment,plainFrame .hello 0 [0x61]⟩,⟨plainState,plainMoment,plainFrame .query 0 []⟩,
    ⟨plainState,plainMoment,plainFrame .txnBegin 0 []⟩]

theorem no_access_before_authentication_stranger :
    ((@talk plainHost Engine.noRanking namedKey plainGateway lockedConfig (.fresh 1) strangerInputs).map
      fun x => x.response.map (·.opcode)) = [some .helloAck,some .error,some .error] ∧
    ∀ x ∈ @talk plainHost Engine.noRanking namedKey plainGateway lockedConfig (.fresh 1) strangerInputs,
      x.handled.Idle x.input.state ∧
        (requiresAuth x.input.frame.opcode = true → x.response.map (·.opcode) = some .error) :=
  ⟨by decide +kernel,@no_access_before_authentication plainHost Engine.noRanking namedKey plainGateway lockedConfig rfl
    strangerInputs (by decide +kernel) 1⟩

/-- An `explain` is neither refused for its page nor given the server's deadline. -/
theorem explain_analyze_unlimited :
    (@handle plainHost Engine.noRanking namedKey plainGateway plainConfig plainMoment plainState (.fresh 1)
      (plainFrame .explain 0 [])).started = [.explain (noteSearch 2000000) true] ∧
    plainConfig.limits.maxQueryTimeMs ≠ 0 ∧ (noteSearch 2000000).timeoutMs = none ∧
    ¬@ReadRequest.WithinLimits plainHost plainConfig.limits (.find (noteSearch 2000000)) := by
  refine ⟨rfl,by decide,rfl,fun within => ?_⟩
  exact absurd (@ReadRequest.WithinLimits.limit plainHost _ _ within 2000000 rfl) (by decide)

theorem reads_within_limits_notes :
    (@handle plainHost Engine.noRanking namedKey plainGateway plainConfig plainMoment plainState (.fresh 1)
      (plainFrame .query 0 [5])).started = [.read (.find { noteSearch 5 with timeoutMs := some 30000 })] ∧
    @ReadRequest.WithinLimits plainHost plainConfig.limits (.find { noteSearch 5 with timeoutMs := some 30000 }) := by
  have started : (@handle plainHost Engine.noRanking namedKey plainGateway plainConfig plainMoment plainState (.fresh 1)
      (plainFrame .query 0 [5])).started = [.read (.find { noteSearch 5 with timeoutMs := some 30000 })] := by
    rfl
  have own : @ReadRequest.SelfLimited plainHost plainConfig.limits
      (.find { noteSearch 5 with timeoutMs := some 30000 }) := by
    refine @ReadRequest.SelfLimited.mk plainHost _ _ ?_ fun _ => rfl
    intro text inside
    cases inside
  exact ⟨started,(@reads_within_limits plainHost Engine.noRanking namedKey plainGateway plainConfig plainMoment
    plainState (.fresh 1) (plainFrame .query 0 [5]) (.read _) (by rw [started]; exact List.mem_singleton_self _)).mpr own⟩

end AuraDb.Server
