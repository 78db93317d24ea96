import AuraDb.Query.Exec
import AuraDb.Storage.Memory

/-! Transactions of `auradb-txn`: a pinned read timestamp and a staged write set, ordered by key; and the engine
of `auradb` on one node: storage, the indexes of each collection, the registry of transactions and the planner's
row counts. A panic poisons the engine's lock, so nothing runs after it. -/
namespace AuraDb
open Library Std

structure Key where
  collection : String
  id : RecordId
  deriving DecidableEq, Repr

namespace Key

def cmp : Key → Key → Ordering := compareLex (compareOn Key.collection) (compareOn Key.id)

instance : TransCmp cmp := inferInstanceAs (TransCmp (compareLex (compareOn Key.collection) (compareOn Key.id)))

instance : LawfulEqCmp cmp where
  eq_of_compare {a b} same := by
    obtain ⟨c,i⟩ := a
    obtain ⟨c',i'⟩ := b
    simp only [cmp,compareLex,compareOn,Ordering.then_eq_eq,LawfulEqCmp.compare_eq_iff_eq] at same
    rw [same.1,same.2]

end Key

inductive StagedOp where
  | put (record : Record)
  | delete
  deriving DecidableEq, Repr

def StagedOp.value : StagedOp → Option Record
  | .put r => some r
  | .delete => none

abbrev WriteSet := ExtTreeMap Key StagedOp Key.cmp

/-- An open transaction. A staged record is under its own key. -/
structure Transaction where
  id : TxnId
  readTs : Nat
  observed : ExtTreeMap Key (Option Nat) Key.cmp
  staged : WriteSet
  keyed : ∀ (k : Key) (r : Record), staged[k]? = some (.put r) → r.collection = k.collection ∧ r.id = k.id
  deriving DecidableEq

namespace Transaction

def beginAt (id : TxnId) (readTs : Nat) : Transaction := ⟨id,readTs,∅,∅,by simp⟩

def isEmpty (txn : Transaction) : Bool := txn.staged.isEmpty

def observe (txn : Transaction) (key : Key) (version : Option Nat) : Transaction :=
  { txn with observed := txn.observed.alter key (fun held => some (held.getD version)) }

def stagePut (txn : Transaction) (record : Record) (priorVersion : Option Nat) : Transaction :=
  let key : Key := ⟨record.collection,record.id⟩
  let txn := txn.observe key priorVersion
  { txn with
    staged := txn.staged.insert key (.put record)
    keyed := by
      intro k r found
      rw [TreeMap.getElem?_insert_eq] at found
      split at found
      · rename_i same
        cases found
        exact same ▸ ⟨rfl,rfl⟩
      · exact txn.keyed k r found }

def stageDelete (txn : Transaction) (collection : String) (id : RecordId) (priorVersion : Option Nat) : Transaction :=
  let key : Key := ⟨collection,id⟩
  let txn := txn.observe key priorVersion
  { txn with
    staged := txn.staged.insert key .delete
    keyed := by
      intro k r found
      rw [TreeMap.getElem?_insert_eq] at found
      split at found
      · cases found
      · exact txn.keyed k r found }

def stagedOps (txn : Transaction) : List (Key × StagedOp) := txn.staged.toList

variable (txn : Transaction)

theorem staged_stagePut (r : Record) (v : Option Nat) (k : Key) : (txn.stagePut r v).staged[k]? =
      if (⟨r.collection,r.id⟩ : Key) = k then some (.put r) else txn.staged[k]? :=
  TreeMap.getElem?_insert_eq _ _ _ _

theorem staged_stageDelete (c : String) (i : RecordId) (v : Option Nat) (k : Key) :
    (txn.stageDelete c i v).staged[k]? = if (⟨c,i⟩ : Key) = k then some .delete else txn.staged[k]? :=
  TreeMap.getElem?_insert_eq _ _ _ _

theorem observed_stagePut (r : Record) (v : Option Nat) (k : Key) : (txn.stagePut r v).observed[k]? =
      if (⟨r.collection,r.id⟩ : Key) = k then some (txn.observed[k]?.getD v) else txn.observed[k]? := by
  refine (TreeMap.getElem?_alter_eq _ _ _ _).trans ?_
  split
  · rename_i same
    rw [same]
  · rfl

theorem observed_stageDelete (c : String) (i : RecordId) (v : Option Nat) (k : Key) :
    (txn.stageDelete c i v).observed[k]? =
      if (⟨c,i⟩ : Key) = k then some (txn.observed[k]?.getD v) else txn.observed[k]? := by
  refine (TreeMap.getElem?_alter_eq _ _ _ _).trans ?_
  split
  · rename_i same
    rw [same]
  · rfl

theorem mem_stagedOps (k : Key) (op : StagedOp) :
    (k,op) ∈ txn.stagedOps ↔ txn.staged[k]? = some op := ExtTreeMap.mem_toList_iff_getElem?_eq_some

theorem stagedOps_nodup : (txn.stagedOps.map Prod.fst).Nodup := TreeMap.keys_nodup txn.staged

end Transaction

inductive Outcome (α : Type) where
  | ok (value : α)
  | err (e : Error)
  | panic (message : String)
  deriving DecidableEq, Repr

namespace Outcome
variable {α β : Type}

def map (f : α → β) : Outcome α → Outcome β
  | .ok a => .ok (f a)
  | .err e => .err e
  | .panic m => .panic m

def collect (f : α → Outcome β) : List α → Outcome (List β)
  | [] => .ok []
  | a::rest => match f a with
    | .err e => .err e
    | .panic m => .panic m
    | .ok b => (collect f rest).map (b :: ·)

def isOk : Outcome α → Bool
  | .ok _ => true
  | _ => false

def Panics : Outcome α → Prop
  | .panic _ => True
  | _ => False

instance : (o : Outcome α) → Decidable o.Panics
  | .panic _ => .isTrue trivial
  | .ok _ => .isFalse id
  | .err _ => .isFalse id

theorem collect_ok_iff (f : α → Outcome β) (items : List α) (found : List β) :
    collect f items = .ok found ↔ List.Forall₂ (fun a b => f a = .ok b) items found := by
  induction items generalizing found with
  | nil => simp [collect,eq_comm]
  | cons a rest ih =>
    cases first : f a with
    | err e | panic m => simp [collect,first,List.forall₂_cons_left_iff]
    | ok b =>
      simp only [collect,first,List.forall₂_cons_left_iff]
      cases tail : collect f rest with
      | err e | panic m => simp [map,← ih,tail]
      | ok bs => simp [map,← ih,tail,eq_comm]

theorem collect_panic (f : α → Outcome β) (items : List α) (m : String)
    (panicked : collect f items = .panic m) : ∃ a, f a = .panic m := by
  induction items with
  | nil => cases panicked
  | cons a rest ih =>
    simp only [collect] at panicked
    split at panicked
    · cases panicked
    · rename_i m' first
      cases panicked
      exact ⟨a,first⟩
    · cases tail : collect f rest with
      | ok bs | err e => simp [tail,map] at panicked
      | panic m' =>
        simp only [tail,map,panic.injEq] at panicked
        exact ih (by rw [tail,panicked])

end Outcome

inductive TxnState where
  | active | timedOut
  deriving DecidableEq, Repr

structure TxnEntry where
  readTs : Nat
  startedAt : Nat
  lastActivity : Nat
  connectionId : Option Nat
  state : TxnState
  deriving DecidableEq, Repr

abbrev Indexes := ExtTreeMap String CollectionIndexes compare

abbrev PlannerStats := ExtTreeMap String CollectionStats compare

/-- `Inner`, without what only concerns files and clusters. -/
structure Engine where
  storage : Storage
  indexes : Indexes
  clock : Nat
  txns : ExtTreeMap TxnId TxnEntry compare
  transactionTimeoutSecs : Nat
  transactionTimeoutsTotal : Nat
  gcMinRetainedVersions : Nat
  plannerStats : PlannerStats
  deriving DecidableEq

structure EngineOptions where
  transactionTimeoutSecs : Nat
  gcMinRetainedVersions : Nat
  deriving DecidableEq, Repr

namespace Engine

def rebuildIndexes [Host] (storage : Storage) : List CollectionSchema → Result Indexes
  | [] => .ok ∅
  | schema::rest =>
    match (CollectionIndexes.fromSchema schema).rebuild (storage.scan schema.name) with
    | .error e => .error e
    | .ok idx => (rebuildIndexes storage rest).map (·.insert schema.name idx)

/-- `open_with` over an open storage whose index snapshots are missing or stale. -/
def openWith [Host] (storage : Storage) (options : EngineOptions) (stats : PlannerStats) : Result Engine :=
  match rebuildIndexes storage (storage.schemas.toList.map Prod.snd) with
  | .error e => .error e
  | .ok indexes => .ok ⟨storage,indexes,storage.maxTxnId + 1,∅,options.transactionTimeoutSecs,0,
      max options.gcMinRetainedVersions 1,stats⟩

def resolveLink [Host] (e : Engine) (target : String) (key : Value) : Option Record :=
  e.storage.get target (deriveId target key)

def schemaFor (e : Engine) (collection : String) : Result CollectionSchema :=
  match e.storage.getSchema collection with
  | some schema => .ok schema
  | none => .error (.notFound ("collection " ++ collection))

def linkCheck [Host] (e : Engine) (rel : Relationship) (key : Value) : Result Unit :=
  if (e.resolveLink rel.target key).isNone then .error (.schemaViolation
    ("relationship " ++ rel.name ++ " references a missing " ++ rel.target ++ " record"))
  else .ok ()

def referentialCheck [Host] (e : Engine) (schema : CollectionSchema) (fields : Document) : Result Unit :=
  checkAll (fun rel : Relationship =>
    match fields.get rel.name with
    | none => .ok ()
    | some value =>
      match rel.cardinality, value with
      | _, .null => .ok ()
      | .toOne, v => e.linkCheck rel v
      | .toMany, .array items => checkAll (e.linkCheck rel) items
      | .toMany, _ => .error (.schemaViolation
          ("relationship " ++ rel.name ++ " has the wrong shape for its cardinality"))) schema.relationships

def refersTo (value : Option Value) (pk : Value) : Bool :=
  match value with
  | some (.text s) => (Value.text s).eq pk
  | some (.array items) => items.any (fun v => v.eq pk)
  | _ => false

def inboundLinkCheck (e : Engine) (collection : String) (target : Record) : Result Unit :=
  match (e.storage.getSchema collection).bind (fun schema => schema.primaryKey.bind (fun pk =>
      target.fields.get pk.name)) with
  | none => .ok ()
  | some pk =>
    checkAll (fun other : CollectionSchema =>
      checkAll (fun rel : Relationship =>
        if rel.target ≠ collection ∨ rel.onDelete ≠ .restrict then .ok ()
        else checkAll (fun r : Record =>
          if refersTo (r.get rel.name) pk then .error (.conflict ("cannot delete " ++ collection ++
            " record: referenced by " ++ other.name ++ " via " ++ rel.name))
          else .ok ()) (e.storage.scan other.name)) other.relationships)
      (e.storage.schemas.toList.map Prod.snd)

def refreshStatsRowCount (e : Engine) (collection : String) : Engine :=
  { e with plannerStats := e.plannerStats.alter collection (fun held =>
      some { held.getD {} with rowCount := e.storage.count collection }) }

def beginTxn (e : Engine) (now : Nat) (connectionId : Option Nat) : Engine × Transaction :=
  ({ e with
      clock := e.clock + 1
      txns := e.txns.insert e.clock ⟨e.storage.commitWatermark,now,now,connectionId,.active⟩ },
    .beginAt e.clock e.storage.commitWatermark)

/-- Record activity on a transaction. A timed out one is refused; an unknown id passes. -/
def touchTxn (e : Engine) (id : TxnId) (now : Nat) : Engine × Result Unit :=
  match e.txns[id]? with
  | none => (e,.ok ())
  | some entry =>
    match entry.state with
    | .active => ({ e with txns := e.txns.insert id { entry with lastActivity := now } },.ok ())
    | .timedOut => (e,.error (.transactionTimeout
        ("transaction " ++ toString id ++ " exceeded its idle timeout and was aborted")))

def reapable (e : Engine) (now : Nat) (entry : TxnEntry) : Bool :=
  entry.state == .active && decide (e.transactionTimeoutSecs ≤ now - entry.lastActivity)

def reapTransactions (e : Engine) (now : Nat) : Engine × Nat :=
  -- a timeout of zero turns the reaper off
  if e.transactionTimeoutSecs = 0 then (e,0) else
  let reaped := (e.txns.toList.filter (fun p => e.reapable now p.2)).length
  ({ e with
      txns := e.txns.map (fun _ entry => if e.reapable now entry then { entry with state := .timedOut } else entry)
      transactionTimeoutsTotal := e.transactionTimeoutsTotal + reaped },reaped)

def oldestActiveReadTs (e : Engine) : Option Nat :=
  ((e.txns.toList.filter (fun p => p.2.state == .active)).map (fun p => p.2.readTs)).min?

def gcCutoff (e : Engine) : Nat := e.oldestActiveReadTs.getD e.storage.commitWatermark

def gc (e : Engine) (rewritten : Result Nat) : Engine × Result GcReport :=
  let next := e.storage.gc rewritten e.gcCutoff e.gcMinRetainedVersions
  ({ e with storage := next.1 },next.2)

def rollback (e : Engine) (id : TxnId) : Engine := { e with txns := e.txns.erase id }

end Engine

end AuraDb
