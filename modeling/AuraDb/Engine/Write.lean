import AuraDb.Engine.Basic

/-! Auto-commit mutations. Each path gathers what it is about to write, with every check made against the
committed state, then commits one batch. -/
namespace AuraDb
open Library Std

inductive WriteMode where
  | insert | upsert
  deriving DecidableEq, Repr

abbrev Update := Option Record × Option Record

def checkPendingFields [Host] (record : Record) : List FieldDef → List String → Result (List String)
  | [], pending => .ok pending
  | field::rest, pending =>
    if !(field.primaryKey || field.unique) then checkPendingFields record rest pending else
    match record.fields.get field.name with
    | none => checkPendingFields record rest pending
    | some value =>
      if value.isNull then checkPendingFields record rest pending else
      -- `pending` holds the keys of the batch so far, never those of the committed index
      let key := field.name ++ "\x00" ++ indexKey value
      if pending.contains key then .error (.uniqueViolation
        ("duplicate value for unique field " ++ field.name ++ " within batch"))
      else checkPendingFields record rest (key::pending)

def checkPendingUnique [Host] (schema : CollectionSchema) (record : Record) (pending : List String) :
    Result (List String) := checkPendingFields record schema.fields pending

namespace Engine
section
variable [Host]

def commitTo (e : Engine) (io : Result Unit) (collection : String) (batch : Batch) (updates : List Update) :
    Engine × Outcome Unit :=
  match e.storage.commitBatch io batch with
  | (storage,.error err) => ({ e with storage := storage },.err err)
  | (storage,.ok _) =>
    match e.indexes[collection]? with
    | none => ({ e with storage := storage },.panic "indexes exist")
    | some idx =>
      ({ e with storage := storage
                indexes := e.indexes.insert collection
                  (updates.foldl (fun idx u => idx.replace u.1 u.2) idx) },.ok ())

def prepareWrite (e : Engine) (schema : CollectionSchema) (collection : String) (mode : WriteMode)
    (txnId : TxnId) (pending : List String) (fields : Document) (fallback : Nat) :
    Outcome ((Option Record × Record) × List String) :=
  match recordIdFor schema fields fallback with
  | .error err => .err err
  | .ok id =>
    let existing := e.storage.get collection id
    if existing.isSome ∧ mode = .insert then
      .err (.uniqueViolation (collection ++ " record with this primary key already exists")) else
    match e.referentialCheck schema fields with
    | .error err => .err err
    | .ok () =>
      let record : Record := ⟨id,collection,fields,(existing.map (·.version + 1)).getD 1,txnId⟩
      match e.indexes[collection]? with
      | none => .panic "no entry found for key"
      | some idx =>
        match idx.checkUnique record (existing.map (·.id)) with
        | .error err => .err err
        | .ok () =>
          match checkPendingUnique schema record pending with
          | .error err => .err err
          | .ok pending => .ok ((existing,record),pending)

/-- A valid document costs a tick of the clock, also where the rest of the batch fails. -/
def prepareWrites (e : Engine) (schema : CollectionSchema) (collection : String) (mode : WriteMode)
    (txnId : TxnId) : List Document → Nat → List String → Nat × Outcome (List (Option Record × Record))
  | [], clock, _ => (clock,.ok [])
  | fields::rest, clock, pending =>
    match schema.validateRecord fields with
    | .error err => (clock,.err err)
    | .ok () =>
      match e.prepareWrite schema collection mode txnId pending fields clock with
      | .err err => (clock + 1,.err err)
      | .panic m => (clock + 1,.panic m)
      | .ok (pair,pending) =>
        let others := prepareWrites e schema collection mode txnId rest (clock + 1) pending
        (others.1,others.2.map (pair :: ·))

def writeRecords (e : Engine) (io : Result Unit) (collection : String) (list : List Document)
    (mode : WriteMode) (txnId : TxnId) : Engine × Outcome MutationResult :=
  match e.schemaFor collection with
  | .error err => (e,.err err)
  | .ok schema =>
    let found := e.prepareWrites schema collection mode txnId list e.clock []
    let e := { e with clock := found.1 }
    match found.2 with
    | .err err => (e,.err err)
    | .panic m => (e,.panic m)
    | .ok prepared =>
      let next := e.commitTo io collection ⟨txnId,prepared.map (fun p => .put 0 p.2)⟩
        (prepared.map (fun p => (p.1,some p.2)))
      (next.1,next.2.map (fun () =>
        { inserted := (prepared.filter (·.1.isNone)).length, updated := (prepared.filter (·.1.isSome)).length,
          ids := prepared.map (·.2.id) }))

def targets (e : Engine) (collection : String) (filter : Option Filter) : List Record :=
  (e.storage.scan collection).filter (Filter.optional filter)

def prepareUpdate (e : Engine) (schema : CollectionSchema) (collection : String) (set : Document)
    (txnId : TxnId) (old : Record) : Outcome (Record × Record) :=
  let fields := old.fields.merge set
  match schema.validateRecord fields with
  | .error err => .err err
  | .ok () =>
    match e.referentialCheck schema fields with
    | .error err => .err err
    | .ok () =>
      let new : Record := ⟨old.id,collection,fields,old.version + 1,txnId⟩
      match e.indexes[collection]? with
      | none => .panic "no entry found for key"
      | some idx =>
        -- only the committed index is asked: the targets of one update are not compared
        match idx.checkUnique new (some old.id) with
        | .error err => .err err
        | .ok () => .ok (old,new)

def setsPrimaryKey (schema : CollectionSchema) (set : Document) : Bool :=
  schema.primaryKey.elim false (fun pk => set.containsKey pk.name)

def updateRecords (e : Engine) (io : Result Unit) (collection : String) (filter : Option Filter)
    (set : Document) (txnId : TxnId) : Engine × Outcome MutationResult :=
  match e.schemaFor collection with
  | .error err => (e,.err err)
  | .ok schema =>
    if setsPrimaryKey schema set then
      (e,.err (.invalidRequest "cannot change the primary key in an update")) else
    match Outcome.collect (e.prepareUpdate schema collection set txnId) (e.targets collection filter) with
    | .err err => (e,.err err)
    | .panic m => (e,.panic m)
    | .ok prepared =>
      if prepared.isEmpty then (e,.ok {}) else
      let next := e.commitTo io collection ⟨txnId,prepared.map (fun p => .put 0 p.2)⟩
        (prepared.map (fun p => (some p.1,some p.2)))
      (next.1,next.2.map (fun () => { updated := prepared.length, ids := prepared.map (·.2.id) }))

def deleteRecords (e : Engine) (io : Result Unit) (collection : String) (filter : Option Filter)
    (txnId : TxnId) : Engine × Outcome MutationResult :=
  match e.schemaFor collection with
  | .error err => (e,.err err)
  | .ok _ =>
    let targets := e.targets collection filter
    match checkAll (e.inboundLinkCheck collection) targets with
    | .error err => (e,.err err)
    | .ok () =>
      if targets.isEmpty then (e,.ok {}) else
      let next := e.commitTo io collection ⟨txnId,targets.map (fun r => .delete 0 collection r.id)⟩
        (targets.map (fun r => (some r,none)))
      (next.1,next.2.map (fun () => { deleted := targets.length, ids := targets.map (·.id) }))

def mutate (e : Engine) (io : Result Unit) : Mutation → Engine × Outcome MutationResult
  | .insert c fields => e.writeRecords io c [fields] .insert 0
  | .upsert c fields => e.writeRecords io c [fields] .upsert 0
  | .bulkInsert c records => e.writeRecords io c records .insert 0
  | .update c filter set => e.updateRecords io c filter set 0
  | .delete c filter => e.deleteRecords io c filter 0

def applyMutation (e : Engine) (io : Result Unit) (m : Mutation) : Engine × Outcome MutationResult :=
  match e.mutate io m with
  | (e,.ok result) => (e.refreshStatsRowCount m.collection,.ok result)
  | (e,other) => (e,other)

end

end Engine

end AuraDb
