import AuraDb.Engine.Install
import AuraDb.Protocol.Frame
import AuraDb.Query.Cursor
import AuraDb.Server.Cursors
import AuraDb.Server.Limits

/-! The dispatch of requests on a node without a cluster: from a frame, its connection and the shared state to
the reply. Each handler also says which queries it has the engine evaluate. -/
namespace AuraDb.Server
open Library Library.Framing Protocol Std
variable {α : Type} {read : Result α}

structure AuthConfig where
  enabled : Bool
  tokenHash : Option String

structure ServerConfig where
  auth : AuthConfig
  limits : LimitsConfig
  pageSize : Nat
  transactionTimeoutSecs : Nat
  gcEnabled : Bool

structure HelloRequest where
  clientVersion : String
  protocolVersion : UInt8
  authToken : Option String

structure CursorFetchRequest where
  cursorId : Nat
  limit : Nat

/-- The JSON forms of the payloads, the check of a token against its hash, and two reports that are not
modelled. -/
class Gateway where
  decodeHello : Bytes → Result HelloRequest
  decodeAuth : Bytes → Result String
  decodeSchema : Bytes → Result CollectionSchema
  decodeName : Bytes → Result String
  decodeRead : Bytes → Result ReadRequest
  decodeMutation : Bytes → Result Mutation
  decodeCursorFetch : Bytes → Result CursorFetchRequest
  decodeCursorClose : Bytes → Result Nat
  /-- The query of an `explain` and its `analyze` flag. -/
  decodeExplain : Bytes → Result (FindQuery × Bool)
  verifyToken : String → String → Result Bool
  explainPlan : Source → FindQuery → Bool → List Scored → Json
  estimateMigration : Source → CollectionSchema → Result Json

structure HealthReport where
  collections : Nat
  activeTransactions : Nat
  timedOutTransactions : Nat
  oldestActiveReadTs : Option Nat
  oldestTransactionAgeSecs : Option Nat
  retainedVersions : Nat
  transactionTimeoutsTotal : Nat
  transactionTimeoutSecs : Nat
  gcEnabled : Bool
  deriving DecidableEq

inductive Body where
  | helloAck (protocolVersion : UInt8) (authRequired authenticated : Bool)
  | authResult (authenticated : Bool)
  | pong (payload : Bytes)
  | health (report : HealthReport)
  | done
  | schema (schema : CollectionSchema)
  | schemas (schemas : List CollectionSchema)
  | page (rows : List Row) (cursorId : Option Nat)
  | rankedPage (rows : List Row) (nextCursor : Option String)
  | count (n : Nat)
  | exist (found : Bool)
  | aggregate (found : AggregateResult)
  | plan (plan : Json)
  | estimate (estimate : Json)
  | txnBegin (txnId : TxnId)
  | mutated (result : MutationResult)
  | error (e : Error)

structure Reply where
  opcode : Opcode
  txnId : Nat
  body : Body

structure Response where
  opcode : Opcode
  requestId : BitVec 128
  txnId : Nat
  body : Body

structure Client where
  connectionId : Nat
  negotiatedVersion : UInt8 := 0
  authenticated : Bool := false
  transactions : ExtTreeMap TxnId Transaction compare := ∅
  stagedWrites : ExtTreeMap TxnId Nat compare := ∅

structure Session extends Client where
  cursorIds : ExtTreeSet Nat compare := ∅

structure ServerState where
  engine : Engine
  cursors : CursorRegistry

/-- The clocks a request reads and how its writes to files went. -/
structure Moment where
  now : Nat
  elapsed : Stopwatch
  appended : Result Unit
  saved : Result Unit

structure Served where
  engine : Engine
  client : Client
  started : List Evaluation
  reply : Outcome Reply

def Served.refuse (e : Engine) (client : Client) (err : Error) : Served := ⟨e,client,[],.err err⟩

def Served.given {α : Type} (e : Engine) (client : Client) (read : Result α) (next : α → Served) : Served :=
  match read with
  | .error err => .refuse e client err
  | .ok a => next a

theorem Served.given_elim {P : Served → Prop} {e : Engine} {client : Client}
    {next : α → Served} (refused : ∀ err, P (.refuse e client err)) (passed : ∀ a, read = .ok a → P (next a)) :
    P (.given e client read next) := by
  cases read with
  | error err => exact refused err
  | ok a => exact passed a rfl

def okOk (frame : Frame) : Reply := ⟨.ok,frame.txnId.toNat,.done⟩

def requiresAuth : Opcode → Bool
  | .hello => false
  | .auth => false
  | .ping => false
  | .health => false
  | _ => true

def Client.txnOf (client : Client) (frame : Frame) : Result (Option Transaction) :=
  if frame.txnId = 0 then .ok none
  else match client.transactions[frame.txnId.toNat]? with
    | none => .error (.notFound ("transaction " ++ toString frame.txnId.toNat))
    | some txn => .ok (some txn)

def healthReport (config : ServerConfig) (now : Nat) (e : Engine) : HealthReport :=
  let active := e.txns.toList.filter (fun p => p.2.state == .active)
  { collections := e.storage.schemas.size
    activeTransactions := active.length
    timedOutTransactions := (e.txns.toList.filter (fun p => p.2.state == .timedOut)).length
    oldestActiveReadTs := e.oldestActiveReadTs
    oldestTransactionAgeSecs := (active.map (fun p => now - p.2.startedAt)).max?
    retainedVersions := e.storage.totalVersions
    transactionTimeoutsTotal := e.transactionTimeoutsTotal
    transactionTimeoutSecs := config.transactionTimeoutSecs
    gcEnabled := config.gcEnabled }

section
variable {P : Handled → Prop} {state : ServerState} {session : Session}

/-- For a cursor it is noted which was opened, and which had a page, each with the transaction through whose
view. -/
structure Handled where
  state : ServerState
  session : Session
  started : List Evaluation
  reply : Outcome Reply
  opened : Option (Nat × Option TxnId) := none
  paged : Option (Nat × Option TxnId) := none

def Served.within (served : Served) (state : ServerState) (session : Session) : Handled :=
  { state := { state with engine := served.engine }
    session := { session with toClient := served.client }
    started := served.started
    reply := served.reply }

def Handled.given {α : Type} (state : ServerState) (session : Session) (read : Result α) (next : α → Handled) :
    Handled :=
  match read with
  | .error err => (Served.refuse state.engine session.toClient err).within state session
  | .ok a => next a

theorem Handled.given_elim
    {next : α → Handled} (refused : ∀ err, P ((Served.refuse state.engine session.toClient err).within state session))
    (passed : ∀ a, read = .ok a → P (next a)) : P (.given state session read next) := by
  cases read with
  | error err => exact refused err
  | ok a => exact passed a rfl

variable [Host] [Ranked] [KeyText] [Gateway] (config : ServerConfig) (m : Moment)

def verifySessionToken (token : String) : Bool :=
  match config.auth.tokenHash with
  | none => false
  | some hash => match Gateway.verifyToken hash token with
    | .ok verdict => verdict
    | .error _ => false

def handleHello (e : Engine) (client : Client) (frame : Frame) : Served :=
  .given e client (Gateway.decodeHello frame.payload) fun req =>
    let negotiated := min req.protocolVersion protocolVersion
    let authenticated := if !config.auth.enabled then true
      else if req.authToken.any (verifySessionToken config) then true
      else client.authenticated
    ⟨e,{ client with negotiatedVersion := negotiated, authenticated },[],
      .ok ⟨.helloAck,0,.helloAck negotiated config.auth.enabled authenticated⟩⟩

def handleAuth (e : Engine) (client : Client) (frame : Frame) : Served :=
  .given e client (Gateway.decodeAuth frame.payload) fun token =>
    if !config.auth.enabled || verifySessionToken config token then
      ⟨e,{ client with authenticated := true },[],.ok ⟨.authResult,0,.authResult true⟩⟩
    else .refuse e client .invalidCredentials

/-- A read of the engine inside the frame's transaction, or outside of any. -/
def evaluate (e : Engine) (client : Client) (frame : Frame) (query : Evaluation) (run : Source → Result Reply) :
    Served :=
  .given e client (client.txnOf frame) fun txn =>
    match e.readView txn m.now query.request.collection with
    | (e,.error err) => .refuse e client err
    | (e,.ok src) => ⟨e,client,[query],.ofResult (run src)⟩

def handleExplain (e : Engine) (client : Client) (frame : Frame) : Served :=
  .given e client (Gateway.decodeExplain frame.payload) fun (q,analyze) =>
    evaluate m e client frame (.explain q analyze) fun src =>
      (executeFind src q (.afterMs q.timeoutMs m.elapsed)).map
        (fun ordered => ⟨.ok,0,.plan (Gateway.explainPlan src q analyze ordered)⟩)

def handleMutation (e : Engine) (client : Client) (frame : Frame) (mutation : Mutation) : Served :=
  .given e client (enforceMutationLimits config.limits mutation) fun () =>
    let reply (result : MutationResult) : Reply := ⟨.ok,frame.txnId.toNat,.mutated result⟩
    if frame.txnId = 0 then
      let done := e.applyMutation m.appended mutation
      ⟨done.1,client,[],done.2.map reply⟩
    else
      -- the entry of the count stays behind also where the request fails
      let staged := client.stagedWrites[frame.txnId.toNat]?.getD 0
      let client := { client with stagedWrites := client.stagedWrites.insert frame.txnId.toNat staged }
      let next := staged + mutationWriteCount mutation
      if config.limits.maxTransactionWriteSet < next then
        .refuse e client (.limitExceeded ("transaction write set would reach " ++ toString next ++
          " writes, exceeding limit " ++ toString config.limits.maxTransactionWriteSet))
      else match client.transactions[frame.txnId.toNat]? with
        | none => .refuse e client (.notFound ("transaction " ++ toString frame.txnId.toNat))
        | some txn =>
          let done := e.stage txn mutation m.now
          let client := { client with transactions := client.transactions.insert frame.txnId.toNat done.2.1 }
          match done.2.2 with
          | .error err => .refuse done.1 client err
          | .ok result => ⟨done.1,{ client with stagedWrites := client.stagedWrites.insert frame.txnId.toNat next },[],
              .ok (reply result)⟩

def handleBegin (e : Engine) (client : Client) : Served :=
  let began := e.beginTxn m.now (some client.connectionId)
  ⟨began.1,{ client with transactions := client.transactions.insert began.2.id began.2 },[],
    .ok ⟨.ok,began.2.id,.txnBegin began.2.id⟩⟩

def handleEnd (e : Engine) (client : Client) (frame : Frame) (finish : Transaction → Engine × Outcome Unit) : Served :=
  match client.transactions[frame.txnId.toNat]? with
  | none => .refuse e client (.notFound ("transaction " ++ toString frame.txnId.toNat))
  | some txn =>
    let client := { client with
      transactions := client.transactions.erase frame.txnId.toNat
      stagedWrites := client.stagedWrites.erase frame.txnId.toNat }
    ⟨(finish txn).1,client,[],(finish txn).2.map (fun () => okOk frame)⟩

def handleEngine (e : Engine) (client : Client) (frame : Frame) : Served :=
  match frame.opcode with
  | .hello => handleHello config e client frame
  | .auth => handleAuth config e client frame
  | .ping => ⟨e,client,[],.ok ⟨.pong,frame.txnId.toNat,.pong frame.payload⟩⟩
  | .health => ⟨e,client,[],.ok ⟨.healthResult,0,.health (healthReport config m.now e)⟩⟩
  | .schemaCreate => .given e client (Gateway.decodeSchema frame.payload) fun schema =>
      .given e client (enforceSchemaLimits config.limits schema) fun () =>
        let made := e.createSchema m.saved schema
        ⟨made.1,client,[],.ofResult (made.2.map (fun () => okOk frame))⟩
  | .schemaDrop => .given e client (Gateway.decodeName frame.payload) fun name =>
      let made := e.dropSchema m.appended m.saved name
      ⟨made.1,client,[],.ofResult (made.2.map (fun () => okOk frame))⟩
  | .schemaGet => .given e client (Gateway.decodeName frame.payload) fun name =>
      ⟨e,client,[],.ofResult ((e.schemaFor name).map (fun schema => ⟨.ok,0,.schema schema⟩))⟩
  | .schemaList => ⟨e,client,[],.ok ⟨.ok,0,.schemas e.listSchemas⟩⟩
  | .mutate => .given e client (Gateway.decodeMutation frame.payload) fun mutation =>
      handleMutation config m e client frame mutation
  | .explain => handleExplain m e client frame
  | .migrationEstimate => .given e client (Gateway.decodeSchema frame.payload) fun target =>
      ⟨e,client,[],.ofResult ((Gateway.estimateMigration e.committedView target).map
        (fun estimate => ⟨.ok,0,.estimate estimate⟩))⟩
  | .txnBegin => handleBegin m e client
  | .txnCommit => handleEnd e client frame (fun txn => e.commit m.appended txn)
  | .txnRollback => handleEnd e client frame (fun txn => (e.rollback txn.id,.ok ()))
  | other => .refuse e client (.protocol ("opcode 0x" ++ String.ofList (Hex.hexByte other.asU8) ++
      " is a response, not a request"))

/-- `plan_find` and the first page of a find, with what is left and the rank it starts at. -/
structure Planned where
  engine : Engine
  started : List Evaluation
  found : Result (List Row × List Scored × Nat)

def planFirst (e : Engine) (txn : Option Transaction) (q : FindQuery) : Planned :=
  match e.readView txn m.now q.collection with
  | (e,.error err) => ⟨e,[],.error err⟩
  | (e,.ok src) => match executeFind src q (.afterMs q.timeoutMs m.elapsed) with
    | .error err => ⟨e,[.read (.find q)],.error err⟩
    | .ok ordered =>
      let firstEnd := min ordered.length config.pageSize
      match e.readView txn m.now q.collection with
      | (e,.error err) => ⟨e,[.read (.find q)],.error err⟩
      | (e,.ok src) => ⟨e,[.read (.find q)],(materialize src q (ordered.take firstEnd)).map
          (fun rows => (rows,ordered.drop firstEnd,firstEnd))⟩

/-- A find sends its first page and leaves the rest to a cursor. -/
def handleFind (state : ServerState) (session : Session) (frame : Frame) (q : FindQuery) : Handled :=
  match session.txnOf frame with
  | .error err => (Served.refuse state.engine session.toClient err).within state session
  | .ok txn =>
    let planned := planFirst config m state.engine txn q
    match planned.found with
    | .error err => ⟨{ state with engine := planned.engine },session,planned.started,.err err,none,none⟩
    | .ok (rows,remaining,baseRank) =>
      let reply (cursorId : Option Nat) : Outcome Reply := .ok ⟨.queryResult,frame.txnId.toNat,.page rows cursorId⟩
      if remaining.isEmpty then ⟨{ state with engine := planned.engine },session,planned.started,reply none,none,none⟩
      else
        let id := state.cursors.nextId
        ⟨⟨planned.engine,state.cursors.openAt q remaining baseRank m.now⟩,
          { session with cursorIds := session.cursorIds.insert id },planned.started,reply (some id),
          some (id,txn.map (·.id)),none⟩

def handleQuery (state : ServerState) (session : Session) (frame : Frame) (req : ReadRequest) : Handled :=
  let answer (run : Source → Result Reply) : Handled :=
    (evaluate m state.engine session.toClient frame (.read req) run).within state session
  match req with
  | .find q => handleFind config m state session frame q
  | .count q => answer fun src => (executeCount src q).map (fun n => ⟨.ok,frame.txnId.toNat,.count n⟩)
  | .exist q => answer fun src => (executeExists src q).map (fun found => ⟨.ok,frame.txnId.toNat,.exist found⟩)
  | .aggregate q => answer fun src => (executeAggregate src q (.afterMs q.timeoutMs m.elapsed)).map
      (fun found => ⟨.queryResult,frame.txnId.toNat,.aggregate found⟩)
  | .searchPage q pageSize cursor => answer fun src => do
      let page ← paginateRanked src q pageSize cursor (.afterMs q.timeoutMs m.elapsed)
      let rows ← materializePage src q page.rows page.startRank
      return ⟨.queryResult,frame.txnId.toNat,.rankedPage rows page.nextCursor⟩

def handleCursorFetch (state : ServerState) (session : Session) (frame : Frame) (req : CursorFetchRequest) : Handled :=
  match session.txnOf frame with
  | .error err => (Served.refuse state.engine session.toClient err).within state session
  | .ok txn =>
    let turn := state.cursors.fetchWith state.engine txn req.cursorId req.limit m.now
    let state : ServerState := ⟨turn.2.1,turn.1⟩
    match turn.2.2 with
    | .error err => ⟨state,session,[],.err err,none,none⟩
    | .ok page =>
      let session := if page.more then session
        else { session with cursorIds := session.cursorIds.erase req.cursorId }
      ⟨state,session,[],.ok ⟨.queryResult,frame.txnId.toNat,
        .page page.rows (if page.more then some req.cursorId else none)⟩,none,some (req.cursorId,txn.map (·.id))⟩

def handleCursorClose (state : ServerState) (session : Session) (frame : Frame) (id : Nat) : Handled :=
  { state := { state with cursors := state.cursors.close id }
    session := { session with cursorIds := session.cursorIds.erase id }
    started := []
    reply := .ok (okOk frame) }

def handle (state : ServerState) (session : Session) (frame : Frame) : Handled :=
  if config.auth.enabled && !session.authenticated && requiresAuth frame.opcode then
    (Served.refuse state.engine session.toClient
      (.unauthenticated "authentication required before this operation")).within state session
  else match frame.opcode with
    | .query => .given state session (Gateway.decodeRead frame.payload) fun req =>
        .given state session (enforceReadLimits config.limits req) fun () =>
          handleQuery config m state session frame (req.withDeadline config.limits.maxQueryTimeMs)
    | .cursorFetch => .given state session (Gateway.decodeCursorFetch frame.payload) fun req =>
        .given state session (enforcePaginationLimits config.limits (some req.limit) none) fun () =>
          handleCursorFetch m state session frame req
    | .cursorClose => .given state session (Gateway.decodeCursorClose frame.payload) fun id =>
        handleCursorClose state session frame id
    | _ => (handleEngine config m state.engine session.toClient frame).within state session

theorem handle_elim {frame : Frame}
    (refused : ∀ err, P ((Served.refuse state.engine session.toClient err).within state session))
    (query : ∀ req, frame.opcode = .query → enforceReadLimits config.limits req = .ok () →
      P (handleQuery config m state session frame (req.withDeadline config.limits.maxQueryTimeMs)))
    (fetch : ∀ req, frame.opcode = .cursorFetch → Gateway.decodeCursorFetch frame.payload = .ok req →
      P (handleCursorFetch m state session frame req))
    (close : ∀ id, frame.opcode = .cursorClose → Gateway.decodeCursorClose frame.payload = .ok id →
      P (handleCursorClose state session frame id))
    (engine : frame.opcode ≠ .cursorFetch → frame.opcode ≠ .cursorClose →
      P ((handleEngine config m state.engine session.toClient frame).within state session)) :
    P (handle config m state session frame) := by
  unfold handle
  split
  · exact refused _
  · split
    · rename_i isQuery
      exact Handled.given_elim refused fun req _ => Handled.given_elim refused fun _ passed => query req isQuery passed
    · rename_i isFetch
      exact Handled.given_elim refused fun req read => Handled.given_elim refused fun _ _ => fetch req isFetch read
    · rename_i isClose
      exact Handled.given_elim refused fun id read => close id isClose read
    · rename_i notFetch notClose
      exact engine notFetch notClose

/-- `respond`. A request that panics takes its connection down and is not answered. -/
def Handled.response (handled : Handled) (frame : Frame) : Option Response :=
  match handled.reply with
  | .ok reply => some ⟨reply.opcode,frame.requestId,reply.txnId,reply.body⟩
  | .err err => some ⟨.error,frame.requestId,frame.txnId.toNat,.error err⟩
  | .panic _ => none

end

end AuraDb.Server
