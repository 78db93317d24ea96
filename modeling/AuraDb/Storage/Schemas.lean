import AuraDb.Storage.Durability

/-! The schema catalog of `auradb-storage`. A drop writes tombstones and forgets the chains in memory; until the
log is written anew it still holds what memory has forgotten. -/
namespace AuraDb
open Library Library.Framing Library.VersionChain Std Storage
variable {d : Disk} {syncOnCommit : Bool} {st : Store} {codec : Codec Batch}

namespace Storage

/-- `saved` is the outcome of the file step; the catalog in memory changes before it. -/
def putSchema [Host] (saved : Result Unit) (schema : CollectionSchema) (s : Storage) : Storage × Result Unit :=
  match schema.validateDefinition with
  | .error e => (s,.error e)
  | .ok () =>
    let put := { s with schemas := s.schemas.insert schema.name schema }
    match saved with
    | .error e => (put,.error e)
    | .ok () => ({ put with records := ensureCollections [schema.name] put.records },.ok ())

def liveIds (s : Storage) (c : String) : List RecordId :=
  match s.records[c]? with
  | none => []
  | some chains => (chains.toList.filter (fun p => (latest p.2).any (fun v => v.value.isSome))).map Prod.fst

def dropBatch (s : Storage) (name : String) : Batch := ⟨0,(s.liveIds name).map (LogOp.delete 0 name)⟩

def forgotten (name : String) (s : Storage) : Storage :=
  { s with records := s.records.erase name, schemas := s.schemas.erase name }

/-- Tombstone every live record, forget the chains, remove the schema and save the catalog. -/
def dropSchema (appended saved : Result Unit) (name : String) (s : Storage) : Storage × Result Unit :=
  if s.schemas.contains name then
    match s.commitBatch appended (s.dropBatch name) with
    | (s,.error e) => (s,.error e)
    | (s,.ok _) => (s.forgotten name,saved)
  else (s,.error (.notFound ("collection " ++ name)))

end Storage

/-- Under a temporary name, then renamed; where that fails, the file is as it was. -/
def Disk.saveCatalog (fault : Option String) (catalog : ExtTreeMap String CollectionSchema compare) (d : Disk) :
    Disk × Result Unit :=
  match fault with
  | none => ({ d with catalog := catalog },.ok ())
  | some reason => (d,.error (.io reason))

namespace Store

def putSchema [Host] (fault : Option String) (schema : CollectionSchema) (d : Disk) (st : Store) :
    Disk × Store × Result Unit :=
  match schema.validateDefinition with
  | .error e => (d,st,.error e)
  | .ok () =>
    let file := d.saveCatalog fault (st.mem.schemas.insert schema.name schema)
    let next := st.mem.putSchema file.2 schema
    (file.1,{ st with mem := next.1 },next.2)

def dropSchema (codec : Codec Batch) (append : Option AppendFault) (save : Option String) (name : String)
    (d : Disk) (st : Store) : Disk × Store × Result Unit :=
  if st.mem.schemas.contains name then
    match st.commitBatch codec append (st.mem.dropBatch name) d with
    | (d,st,.error e) => (d,st,.error e)
    | (d,st,.ok _) =>
      let file := d.saveCatalog save (st.mem.forgotten name).schemas
      (file.1,{ st with mem := st.mem.forgotten name },file.2)
  else (d,st,.error (.notFound ("collection " ++ name)))

end Store

inductive SchemaCall where
  | data (call : Call)
  | putSchema (fault : Option String) (schema : CollectionSchema)
  | dropSchema (append : Option AppendFault) (save : Option String) (name : String)

/-- What a call did to the collections: one was dropped at a watermark, some were written to, the log was written
anew from memory, or memory was read from the log. -/
inductive SchemaEvent where
  | dropped (collection : String) (ts : Nat)
  | wrote (collections : List String)
  | rewritten
  | restarted
  deriving DecidableEq, Repr

/-- The drops that the log has not forgotten yet, those that a restart came upon before a rewrite, and the
collections that are dropped with nothing written to them since. -/
structure Drops where
  fresh : List (String × Nat)
  returned : List (String × Nat)
  gone : List String
  deriving DecidableEq

def Drops.after (h : Drops) : SchemaEvent → Drops
  | .dropped c ts => { h with fresh := h.fresh ++ [(c,ts)], gone := c::h.gone }
  | .wrote collections => { h with gone := h.gone.filter (· ∉ collections) }
  | .rewritten => { h with fresh := [] }
  | .restarted => { h with fresh := [], returned := h.returned ++ h.fresh }

def Drops.of (shown : List SchemaEvent) : Drops := shown.foldl Drops.after ⟨[],[],[]⟩

namespace Database

def settles : Call → List SchemaEvent
  | .gc none _ _ _ => [.rewritten]
  | .compact none _ => [.rewritten]
  | .reopen => [.restarted]
  | _ => []

def observed (call : Call) (acks : List Ack) : List SchemaEvent :=
  acks.map (fun ack => .wrote (ack.batch.ops.map LogOp.collection)) ++ settles call

def schemaCall [Host] (codec : Codec Batch) (db : Database) : SchemaCall → Option (Database × List SchemaEvent)
  | .data call => (db.call codec call).map (fun p => (p.1,observed call p.2))
  | .putSchema fault schema =>
    let next := db.store.putSchema fault schema db.disk
    some (⟨next.1,next.2.1⟩,[])
  | .dropSchema append save name =>
    let next := db.store.dropSchema codec append save name db.disk
    some (⟨next.1,next.2.1⟩,match next.2.2 with
      | .ok () => [.dropped name next.2.1.mem.lastCommitTs]
      | .error _ => [])

def schemaWritten (db : Database) : SchemaCall → Option (Nat × Batch)
  | .data call => db.written call
  | .putSchema _ _ => none
  | .dropSchema _ _ name =>
    if db.store.mem.schemas.contains name then
      db.appended (db.store.mem.lastCommitTs + 1) (db.store.mem.dropBatch name)
    else none

def faultlessSchema : SchemaCall → Bool
  | .data call => faultless call
  | .putSchema fault _ => fault.isNone
  | .dropSchema append save _ => append.isNone && save.isNone

abbrev SchemaRuns [Host] (codec : Codec Batch) :=
  Run (schemaCall codec) (fun db c => faultlessSchema c = true ∧ Readable codec (db.schemaWritten c))

end Database

namespace Storage

theorem mem_liveIds (s : Storage) (c : String) (i : RecordId) : i ∈ s.liveIds c ↔ (s.get c i).isSome = true := by
  simp only [liveIds,get]
  cases s.records[c]? with
  | none => simp
  | some chains =>
    simp only [List.mem_map,List.mem_filter,Prod.exists,ExtTreeMap.mem_toList_iff_getElem?_eq_some,
      exists_and_right,exists_eq_right,Option.bind_some]
    cases chains[i]? with
    | none => simp
    | some chain =>
      have live : (latest chain).any (fun v => v.value.isSome) = ((latest chain).bind (·.value)).isSome := by
        cases latest chain <;> rfl
      simp [live]

theorem lastWrite_dropBatch (s : Storage) (name c : String) (i : RecordId) :
    lastWrite (s.dropBatch name).ops c i = if name = c ∧ (s.get c i).isSome = true then some none else none := by
  have written (ids : List RecordId) :
      lastWrite (ids.map (LogOp.delete 0 name)) c i = if name = c ∧ i ∈ ids then some none else none := by
    induction ids using List.reverseRecOn with
    | nil => simp [lastWrite]
    | append_singleton ids last ih =>
      rw [List.map_append,List.map_singleton,lastWrite_append_single,ih]
      by_cases same : name = c
      · by_cases hit : last = i
        · simp [LogOp.targets,LogOp.collection,LogOp.id,LogOp.value,same,hit]
        · simp [LogOp.targets,LogOp.collection,LogOp.id,same,hit,Ne.symm hit]
      · simp [LogOp.targets,LogOp.collection,LogOp.id,same]
  rw [dropBatch,written]
  by_cases same : name = c
  · subst name
    simp only [mem_liveIds]
  · simp [same]

theorem chainOf_forgotten (s : Storage) (name c : String) (i : RecordId) :
    (s.forgotten name).chainOf c i = if name = c then [] else s.chainOf c i := by
  simp only [chainOf,RecordMap.chainOf,forgotten,TreeMap.getElem?_erase_eq]
  split <;> rfl

theorem chainOf_putSchema [Host] (saved : Result Unit) (schema : CollectionSchema) (s : Storage) (c : String)
    (i : RecordId) : (s.putSchema saved schema).1.chainOf c i = s.chainOf c i := by
  unfold putSchema
  split
  · rfl
  · split
    · rfl
    · exact chainOf_ensureCollections ..

variable {s : Storage} {appended saved : Result Unit} {name : String}

theorem WellFormed.forgotten (ok : s.WellFormed) (name : String) : (s.forgotten name).WellFormed where
  ascending c i := by
    rw [chainOf_forgotten]
    split
    · exact List.Pairwise.nil
    · exact ok.ascending c i
  bounded c i v inside := by
    rw [chainOf_forgotten] at inside
    split at inside
    · cases inside
    · exact ok.bounded c i v inside
  keyed c i v inside := by
    rw [chainOf_forgotten] at inside
    split at inside
    · cases inside
    · exact ok.keyed c i v inside

theorem dropSchema_storage (appended saved : Result Unit) (name : String) (s : Storage) :
    (s.dropSchema appended saved name).1 = s ∨ s.schemas.contains name = true ∧
      ∃ mid, (mid = s ∨ mid = s.applied (s.lastCommitTs + 1) (s.dropBatch name)) ∧
        (s.dropSchema appended saved name).1 = mid.forgotten name := by
  unfold dropSchema
  split
  · rename_i held
    unfold commitBatch
    split
    · rename_i e committed
      split at committed
      · cases committed
      split at committed
      · cases committed
        exact .inl rfl
      · cases committed
    · rename_i ts committed
      refine .inr ⟨held,_,?_,rfl⟩
      split at committed
      · cases committed
        exact .inl rfl
      · split at committed
        · cases committed
        · cases committed
          exact .inr rfl
  · exact .inl rfl

theorem dropSchema_ok (dropped : (s.dropSchema appended saved name).2 = .ok ()) :
    ∃ mid : Storage, (s.dropSchema appended saved name).1 = mid.forgotten name := by
  unfold dropSchema at dropped ⊢
  split at dropped
  · rename_i held
    rw [if_pos held]
    split at dropped
    · cases dropped
    · exact ⟨_,rfl⟩
  · cases dropped

theorem dropSchema_done (dropped : (s.dropSchema appended saved name).2 = .ok ()) :
    ∃ mid : Storage, (mid = s ∨ mid = s.applied (s.lastCommitTs + 1) (s.dropBatch name)) ∧
      (s.dropSchema appended saved name).1 = mid.forgotten name := by
  rcases s.dropSchema_storage appended saved name with same | ⟨-,found⟩
  · obtain ⟨mid,forgot⟩ := dropSchema_ok dropped
    have gone : s = mid.forgotten name := same.symm.trans forgot
    unfold dropSchema at dropped
    split at dropped
    · rename_i held
      rw [gone] at held
      simp [forgotten] at held
    · cases dropped
  · exact found

theorem dropSchema_refused {err : Error}
    (refused : (s.dropSchema (.ok ()) (.ok ()) name).2 = .error err) : (s.dropSchema (.ok ()) (.ok ()) name).1 = s := by
  rcases s.dropSchema_storage (.ok ()) (.ok ()) name with same | ⟨held,-⟩
  · exact same
  · unfold dropSchema commitBatch at refused
    rw [if_pos held] at refused
    cases empty : (s.dropBatch name).ops.isEmpty <;> simp [empty] at refused

theorem chainOf_dropped {mid : Storage} (ok : s.WellFormed)
    (written : mid = s ∨ mid = s.applied (s.lastCommitTs + 1) (s.dropBatch name)) (c : String) (i : RecordId)
    (other : name ≠ c) : (mid.forgotten name).chainOf c i = s.chainOf c i := by
  rw [chainOf_forgotten,if_neg other]
  rcases written with rfl | rfl
  · rfl
  · rw [chainOf_applied ok _ _ (Nat.lt_succ_self _),lastWrite_dropBatch,if_neg (fun both => other both.1)]

theorem lastWrite_none {ops : List LogOp} {c : String} (apart : c ∉ ops.map LogOp.collection) (i : RecordId) :
    lastWrite ops c i = none := by
  rw [lastWrite,Option.map_eq_none_iff,List.find?_eq_none]
  intro op inside
  have other : op.collection ≠ c := fun same => apart (List.mem_map.mpr ⟨op,by simpa using inside,same⟩)
  simp [LogOp.targets,other]

theorem unreadable_forgotten (s : Storage) (name : String) :
    (∀ i, (s.forgotten name).get name i = none) ∧ (s.forgotten name).scan name = [] ∧
      ∀ t, (∀ i, (s.forgotten name).getAsOf name i t = none) ∧ (s.forgotten name).scanAsOf name t = [] := by
  have absent : (s.forgotten name).records[name]? = none := by simp [forgotten]
  simp [get,scan,getAsOf,scanAsOf,values,absent]

end Storage

/-- What the log holds below the versions in memory: nothing, or versions that end in a tombstone, none newer
than a pending drop. -/
def Dropped (pending : List (String × Nat)) (c : String) (older : Chain Record) : Prop :=
  older = [] ∨ ∃ ts, (c,ts) ∈ pending ∧ (∀ v ∈ older, v.commitTs ≤ ts) ∧ ∀ v ∈ latest older, v.value = none

/-- The log is what memory holds over what fresh drops made it forget; of a collection that is gone, memory holds
at most what came back. -/
def Shadowed (codec : Codec Batch) (h : Drops) (db : Database) : Prop :=
  ∃ batches, Backed codec db batches ∧ db.disk.catalog = db.store.mem.schemas ∧
    (∀ c i, ∃ older, (replay batches).chainOf c i = older ++ db.store.mem.chainOf c i ∧ Dropped h.fresh c older) ∧
    ∀ c ∈ h.gone, ∀ i, Dropped h.returned c (db.store.mem.chainOf c i)

def CatalogKept {β : Type} (d : Disk) (st : Store) (next : Disk × Store × β) : Prop :=
  next.1.catalog = d.catalog ∧ next.2.1.mem.schemas = st.mem.schemas

theorem CatalogKept.agree {β : Type} {next : Disk × Store × β}
    (kept : CatalogKept d st next) (same : d.catalog = st.mem.schemas) :
    next.1.catalog = next.2.1.mem.schemas := kept.1.trans (same.trans kept.2.symm)

section catalog
variable (codec : Codec Batch) (fault : Option AppendFault) (batch : Batch) (d : Disk) (st : Store)

private theorem append_catalog : (st.appendBatch codec fault batch d).1.catalog = d.catalog := by
  unfold Store.appendBatch
  split <;> rfl

theorem commitBatch_catalog : CatalogKept d st (st.commitBatch codec fault batch d) := by
  unfold CatalogKept Store.commitBatch commitBatch
  cases batch.ops.isEmpty with
  | true => exact ⟨rfl,rfl⟩
  | false =>
    refine ⟨append_catalog ..,?_⟩
    simp only [Bool.false_eq_true,if_false]
    split <;> rfl

theorem applyCommittedBatch_catalog (ts : Nat) :
    CatalogKept d st (st.applyCommittedBatch codec fault batch ts d) := by
  unfold CatalogKept Store.applyCommittedBatch applyCommittedBatch
  constructor
  · split
    · rfl
    · exact append_catalog ..
  · dsimp only
    split
    · rfl
    · split
      · rfl
      · split <;> rfl

theorem rewriteSegment_catalog (fault : Option RewriteFault) (stuck : Nat → Bool) :
    CatalogKept d st (st.rewriteSegment codec fault stuck d) := by
  have removed (d : Disk) :
      ((st.manifest.segments.filter (fun old => old != st.manifest.nextSegmentId && !stuck old)).foldl
        Disk.remove d).catalog = d.catalog :=
    (Disk.foldl_remove _ d st.manifest.nextSegmentId (by simp)).2.2
  cases fault with
  | none => exact ⟨removed _,rfl⟩
  | some fault =>
    cases fault with
    | reopen reason => exact ⟨removed _,rfl⟩
    | openNew reason | writeNew written reason | syncNew reason | saveManifest reason => exact ⟨rfl,rfl⟩

end catalog

section shadowed
variable {db db' : Database} {batches batches' : List Batch} {c : String} {older : Chain Record} {acks : List Ack}
section
variable (backed : Backed codec db batches)
include backed

theorem Backed.replayed : ({ db.store.mem with records := replay batches } : Storage).WellFormed :=
  wellFormed_foldl _ (allOps batches) (replay_eq_foldl batches) backed.logged

section
variable (ts : Nat) (batch : Batch) (newer : db.store.mem.lastCommitTs < ts)
include ts batch newer

theorem Backed.chainOf_replay_stamp (c : String) (i : RecordId) :
    (replay (batches ++ [Store.stamp ts batch])).chainOf c i = match lastWrite batch.ops c i with
      | none => (replay batches).chainOf c i
      | some value => (replay batches).chainOf c i ++ [⟨ts,value⟩] := by
  rw [replay_append]
  exact chainOf_applied backed.replayed ts batch newer c i

theorem Backed.shadowed_applied {i : RecordId}
    (shadow : (replay batches).chainOf c i = older ++ db.store.mem.chainOf c i) :
    (replay (batches ++ [Store.stamp ts batch])).chainOf c i =
      older ++ (db.store.mem.applied ts batch).chainOf c i := by
  rw [backed.chainOf_replay_stamp ts batch newer,chainOf_applied backed.memory ts batch newer,shadow]
  cases lastWrite batch.ops c i with
  | none => rfl
  | some value => exact List.append_assoc ..

end

theorem call_catalog (same : db.disk.catalog = db.store.mem.schemas)
    {call : Call} (called : db.call codec call = some (db',acks)) : db'.disk.catalog = db'.store.mem.schemas := by
  cases call with
  | commitBatch fault batch =>
    cases called
    exact (commitBatch_catalog codec fault batch db.disk db.store).agree same
  | applyCommittedBatch fault batch ts =>
    cases called
    exact (applyCommittedBatch_catalog codec fault batch db.disk db.store ts).agree same
  | put fault record | delete fault c i =>
    cases called
    exact (commitBatch_catalog codec fault _ db.disk db.store).agree same
  | gc fault stuck cutoff minRetained =>
    cases called
    obtain ⟨disk,-⟩ := rewriteSegment_catalog codec db.disk
      { db.store with mem := db.store.mem.pruned cutoff (max minRetained 1) } fault stuck
    simp only [Store.gc,gc_mem]
    exact disk.trans same
  | compact fault stuck =>
    cases called
    exact (rewriteSegment_catalog codec db.disk db.store fault stuck).agree same
  | flush =>
    cases called
    exact same
  | reopen =>
    simp only [Database.call,backed.opens,Option.some.injEq,Prod.mk.injEq] at called
    obtain ⟨rfl,-⟩ := called
    rfl

end

variable {pending more : List (String × Nat)} {h : Drops}

namespace Dropped

theorem mono (within : pending ⊆ more) (dropped : Dropped pending c older) : Dropped more c older := by
  rcases dropped with empty | ⟨ts,member,rest⟩
  · exact .inl empty
  · exact .inr ⟨ts,within member,rest⟩

/-- What is left of a chain when its oldest versions are collected. -/
theorem drop (dropped : Dropped pending c older) (n : Nat) : Dropped pending c (older.drop n) := by
  rcases dropped with rfl | ⟨ts,member,bounded,ended⟩
  · exact .inl List.drop_nil
  · refine .inr ⟨ts,member,fun v inside => bounded v (List.mem_of_mem_drop inside),fun v last => ended v ?_⟩
    rw [latest,List.getLast?_drop] at last
    split at last
    · cases last
    · exact last

theorem pruned (cutoff keep : Nat) (dropped : Dropped pending c older) :
    Dropped pending c ((prune cutoff keep older).getD []) := by
  unfold prune
  split
  · exact .inl rfl
  · exact dropped.drop _

theorem append {newer : Chain Record} (ascending : (older ++ newer).Pairwise fun a b => a.commitTs < b.commitTs)
    (dropped : Dropped pending c older) (dropped' : Dropped more c newer) :
    Dropped (more ++ pending) c (older ++ newer) := by
  rcases dropped' with rfl | ⟨ts,member,bounded,ended⟩
  · rw [List.append_nil]
    exact dropped.mono (List.subset_append_right ..)
  · cases newer with
    | nil =>
      rw [List.append_nil]
      exact dropped.mono (List.subset_append_right ..)
    | cons first rest =>
      refine .inr ⟨ts,List.mem_append_left _ member,fun v inside => ?_,fun v last => ended v ?_⟩
      · rcases List.mem_append.mp inside with old | new
        · have earlier := (List.pairwise_append.mp ascending).2.2 v old first List.mem_cons_self
          exact (Nat.le_of_lt earlier).trans (bounded first List.mem_cons_self)
        · exact bounded v new
      · rwa [latest,List.getLast?_append_of_ne_nil _ (by simp)] at last

theorem value_latest (dropped : Dropped pending c older) : (latest older).bind (·.value) = none := by
  rcases dropped with rfl | ⟨_,_,_,ended⟩
  · rfl
  · cases last : latest older with
    | none => rfl
    | some v => exact ended v last

theorem value_visibleAt (dropped : Dropped pending c older) {t : Nat} (later : ∀ ts, (c,ts) ∈ pending → ts ≤ t) :
    (visibleAt older t).bind (·.value) = none := by
  rcases dropped with rfl | ⟨ts,member,bounded,ended⟩
  · rfl
  · have all := value_visibleAt_append older [] t (fun v inside => (bounded v inside).trans (later ts member)) ended
    rwa [List.append_nil] at all

end Dropped

theorem Backed.dropped_replay {i : RecordId} (backed : Backed codec db batches)
    (split : (replay batches).chainOf c i = older ++ db.store.mem.chainOf c i) (dropped : Dropped h.fresh c older)
    (kept : Dropped h.returned c (db.store.mem.chainOf c i)) :
    Dropped (h.returned ++ h.fresh) c ((replay batches).chainOf c i) := by
  have ascending := backed.replayed.ascending c i
  have chain : ({ db.store.mem with records := replay batches } : Storage).chainOf c i =
      older ++ db.store.mem.chainOf c i := split
  rw [chain] at ascending
  rw [split]
  exact dropped.append ascending kept

theorem Database.settles_eq_nil {call : Call} (which : Database.settling call = false) :
    Database.settles call = [] := by
  cases call <;> first | rfl | cases which

theorem Shadowed.call (shadowed : Shadowed codec h db) {call : Call}
    (clean : Database.faultless call = true) (readable : Database.Readable codec (db.written call))
    (called : db.call codec call = some (db',acks)) :
    Shadowed codec ((Database.observed call acks).foldl Drops.after h) db' := by
  obtain ⟨batches,backed,same,shadow,gone⟩ := shadowed
  obtain ⟨batches',after,changed⟩ := call_changed call backed (Database.harmless_of_faultless clean) readable called
  refine ⟨batches',after,call_catalog backed same called,?_⟩
  have retained := replay_retained db'.store after.memory
  cases changed with
  | idle _ ts _ _ which store =>
    have quiet : Database.settles call = [] := Database.settles_eq_nil (which.resolve_right (by simp [clean]))
    rw [Database.observed,quiet,store]
    exact ⟨shadow,gone⟩
  | committed _ ts batch newer _ which store =>
    rw [Database.observed,Database.settles_eq_nil which,store]
    constructor
    · intro c i
      obtain ⟨older,split,dropped⟩ := shadow c i
      exact ⟨older,backed.shadowed_applied ts batch newer split,dropped⟩
    · intro c inside i
      obtain ⟨inside,apart⟩ := List.mem_filter.mp inside
      rw [chainOf_applied backed.memory ts batch newer,lastWrite_none (of_decide_eq_true apart)]
      exact gone c inside i
  | rewritten _ stuck which mem _ =>
    subst which
    exact ⟨fun c i => ⟨[],retained c i,.inl rfl⟩,by rw [mem]; exact gone⟩
  | collected _ stuck cutoff keep which mem _ =>
    subst which
    refine ⟨fun c i => ⟨[],retained c i,.inl rfl⟩,fun c inside i => ?_⟩
    rw [mem,chainOf_pruned]
    exact (gone c inside i).pruned _ _
  | prunedOnly _ _ _ unsaved _ => simp [clean] at unsaved
  | reopened _ which _ mem =>
    subst which
    have chains (c : String) (i : RecordId) : db'.store.mem.chainOf c i = (replay batches).chainOf c i :=
      mem ▸ ((recoveredStorage_facts _ false batches _).2 rfl).1 c i
    refine ⟨fun c i => ⟨[],(chains c i).symm,.inl rfl⟩,fun c inside i => ?_⟩
    obtain ⟨older,split,dropped⟩ := shadow c i
    rw [chains]
    exact backed.dropped_replay split dropped (gone c inside i)

theorem Shadowed.putSchema [Host] (shadowed : Shadowed codec h db) (schema : CollectionSchema) :
    let next := db.store.putSchema none schema db.disk
    Shadowed codec h ⟨next.1,next.2.1⟩ := by
  obtain ⟨batches,backed,same,shadow⟩ := shadowed
  simp only [Store.putSchema,Storage.putSchema,Disk.saveCatalog]
  split
  · exact ⟨batches,backed,same,shadow⟩
  · have chains (c : String) (i : RecordId) : ({ db.store.mem with
        schemas := db.store.mem.schemas.insert schema.name schema
        records := ensureCollections [schema.name] db.store.mem.records } : Storage).chainOf c i =
          db.store.mem.chainOf c i := chainOf_ensureCollections ..
    have written : Backed codec ⟨{ db.disk with
        catalog := db.store.mem.schemas.insert schema.name schema },db.store⟩ batches :=
      backed.congr_disk _ rfl rfl (fun _ _ => rfl)
    refine ⟨batches,written.congr_mem _ chains (Nat.le_refl _),rfl,?_⟩
    simpa only [chains] using shadow

theorem Shadowed.forgotten (shadowed : Shadowed codec h db) (name : String) (gone : List String)
    (kept : ∀ c ∈ gone, c ≠ name → c ∈ h.gone) (absent : ∀ i, db.store.mem.get name i = none) :
    Shadowed codec ⟨h.fresh ++ [(name,db.store.mem.lastCommitTs)],h.returned,gone⟩
      ⟨{ db.disk with catalog := (db.store.mem.forgotten name).schemas },
        { db.store with mem := db.store.mem.forgotten name }⟩ := by
  obtain ⟨batches,backed,-,shadow,buried⟩ := shadowed
  have written : Backed codec ⟨{ db.disk with catalog := (db.store.mem.forgotten name).schemas },db.store⟩ batches :=
    backed.congr_disk _ rfl rfl (fun _ _ => rfl)
  refine ⟨batches,{ written with memory := backed.memory.forgotten name },rfl,?_,?_⟩
  · intro c i
    obtain ⟨older,split,dropped⟩ := shadow c i
    have kept := dropped.mono (List.subset_append_left h.fresh [(name,db.store.mem.lastCommitTs)])
    simp only [chainOf_forgotten]
    by_cases same : name = c
    · subst same
      rw [if_pos rfl]
      refine ⟨_,(List.append_nil _).symm,?_⟩
      cases empty : db.store.mem.chainOf name i with
      | nil =>
        rw [split,empty,List.append_nil]
        exact kept
      | cons first rest =>
        refine .inr ⟨db.store.mem.lastCommitTs,by simp,backed.replayed.bounded name i,?_⟩
        intro v last
        have value := absent i
        rw [get_eq] at value
        rw [split,latest,List.getLast?_append_of_ne_nil _ (by simp [empty])] at last
        simpa [latest,Option.mem_def.mp last] using value
    · rw [if_neg same]
      exact ⟨older,split,kept⟩
  · intro c inside i
    simp only [chainOf_forgotten]
    split
    · exact .inl rfl
    · rename_i other
      exact buried c (kept c inside (Ne.symm other)) i

theorem dropBatch_gone (codec : Codec Batch) (db : Database) (ok : db.store.mem.WellFormed) (name : String)
    (i : RecordId) :
    (db.store.commitBatch codec none (db.store.mem.dropBatch name) db.disk).2.1.mem.get name i = none := by
  have write := db.store.mem.lastWrite_dropBatch name name i
  simp only [Store.commitBatch,commitBatch]
  cases empty : (db.store.mem.dropBatch name).ops.isEmpty with
  | true =>
    rw [List.isEmpty_iff.mp empty] at write
    simpa [lastWrite,Option.isSome_iff_ne_none] using write
  | false =>
    simp only [Store.appendBatch,Bool.false_eq_true,if_false]
    rw [get_applied ok _ _ (Nat.lt_succ_self _),write]
    cases db.store.mem.get name i <;> simp

theorem dropSchema_held (codec : Codec Batch) (name : String) (d : Disk) (st : Store)
    (held : st.mem.schemas.contains name = true) : let mid := st.commitBatch codec none (st.mem.dropBatch name) d
    st.dropSchema codec none none name d = ({ mid.1 with catalog := (mid.2.1.mem.forgotten name).schemas },
        { mid.2.1 with mem := mid.2.1.mem.forgotten name },.ok ()) := by
  simp only [Store.dropSchema,held,if_true,Store.commitBatch,commitBatch]
  cases (st.mem.dropBatch name).ops.isEmpty with
  | true | false => rfl

/-- The tombstones of a drop are written to the dropped collection only. -/
theorem observed_dropBatch (s : Storage) (name : String) (h : Drops) (result : Result Nat) :
    let h' := (Database.observed (.commitBatch none (s.dropBatch name))
      (Database.acknowledged (s.dropBatch name) result)).foldl Drops.after h
    h'.fresh = h.fresh ∧ h'.returned = h.returned ∧ ∀ c ∈ h.gone, c ≠ name → c ∈ h'.gone := by
  unfold Database.acknowledged
  split
  · split
    · exact ⟨rfl,rfl,fun c inside _ => inside⟩
    · refine ⟨rfl,rfl,fun c inside other => List.mem_filter.mpr ⟨inside,?_⟩⟩
      simpa [dropBatch,LogOp.collection] using fun _ _ => Ne.symm other
  · exact ⟨rfl,rfl,fun c inside _ => inside⟩

theorem Shadowed.dropSchema (shadowed : Shadowed codec h db) (name : String)
    (held : db.store.mem.schemas.contains name = true)
    (readable : Database.Readable codec (db.schemaWritten (.dropSchema none none name))) :
    let next := db.store.dropSchema codec none none name db.disk
    Shadowed codec (h.after (.dropped name next.2.1.mem.lastCommitTs)) ⟨next.1,next.2.1⟩ := by
  rw [dropSchema_held codec name db.disk db.store held]
  obtain ⟨batches,backed,-⟩ := id shadowed
  have writable : Database.Readable codec (db.written (.commitBatch none (db.store.mem.dropBatch name))) := by
    simpa [Database.schemaWritten,Database.written,held] using readable
  have written := (shadowed.call rfl writable rfl).forgotten name (name::h.gone) ?_
    (dropBatch_gone codec db backed.memory name)
  · rwa [(observed_dropBatch ..).1,(observed_dropBatch ..).2.1] at written
  · intro c inside other
    exact (observed_dropBatch ..).2.2 c ((List.mem_cons.mp inside).resolve_left other) other

theorem openWith_catalog {d' : Disk}
    (opened : openWith codec syncOnCommit d = (d',.ok st)) : d'.catalog = st.mem.schemas := by
  unfold openWith at opened
  split at opened
  · cases opened
  unfold openManifest at opened
  dsimp only at opened
  split at opened
  · cases opened
  split at opened
  · -- the rewrite of an older format leaves the catalog alone
    cases opened
    obtain ⟨disk,store⟩ := rewriteSegment_catalog codec _ _ none (fun _ => false)
    exact disk.trans store.symm
  · cases opened
    rfl

theorem Opened.shadowed (start : Opened codec syncOnCommit d db) : Shadowed codec ⟨[],[],[]⟩ db := by
  obtain ⟨batches,backed,same⟩ := start.backed
  exact ⟨batches,backed,openWith_catalog start.opened,fun c i => ⟨[],same c i,.inl rfl⟩,nofun⟩

/-- The same reads, as of a timestamp where none of these drops of the collection is later. -/
structure SameReadsSince (pending : List (String × Nat)) (s s' : Storage) : Prop where
  get : ∀ c i, s.get c i = s'.get c i
  scan : ∀ c, s.scan c = s'.scan c
  getAsOf : ∀ c t, (∀ ts, (c,ts) ∈ pending → ts ≤ t) → ∀ i, s.getAsOf c i t = s'.getAsOf c i t
  scanAsOf : ∀ c t, (∀ ts, (c,ts) ∈ pending → ts ≤ t) → s.scanAsOf c t = s'.scanAsOf c t

/-- Opening again brings back only versions of a collection older than a fresh drop. -/
theorem Shadowed.reopens (shadowed : Shadowed codec h db) (syncOnCommit : Bool) :
    ∃ d st, openWith codec syncOnCommit db.disk = (d,.ok st) ∧ st.mem.schemas = db.store.mem.schemas ∧
      SameReadsSince h.fresh st.mem db.store.mem := by
  obtain ⟨batches,backed,catalog,shadow,-⟩ := shadowed
  refine ⟨_,_,backed.opens syncOnCommit,catalog,?_⟩
  have reads (c : String) (i : RecordId) : (recovered db batches).get c i = db.store.mem.get c i ∧
      ∀ t, (∀ ts, (c,ts) ∈ h.fresh → ts ≤ t) → (recovered db batches).getAsOf c i t = db.store.mem.getAsOf c i t := by
    obtain ⟨older,split,dropped⟩ := shadow c i
    have chain := ((recoveredStorage_facts db.disk.catalog false batches db.store.manifest.lastCommitTs).2 rfl).1 c i
    have reopened : (recovered db batches).chainOf c i = older ++ db.store.mem.chainOf c i := chain.trans split
    simp only [get_eq,getAsOf_eq,reopened]
    rcases dropped with rfl | ⟨ts,member,bounded,ended⟩
    · exact ⟨rfl,fun _ _ => rfl⟩
    · refine ⟨value_latest_append older _ ended,fun t later => ?_⟩
      exact value_visibleAt_append older _ t (fun v inside => (bounded v inside).trans (later ts member)) ended
  exact {
    get := fun c i => (reads c i).1
    scan := fun c => scan_congr _ _ c fun i => (reads c i).1
    getAsOf := fun c t later i => (reads c i).2 t later
    scanAsOf := fun c t later => scanAsOf_congr _ _ c t t fun i => (reads c i).2 t later }

/-- Nothing of a dropped collection is readable, as of a timestamp where no drop that came back is later. -/
theorem Shadowed.unreadable (shadowed : Shadowed codec h db) {c : String} (gone : c ∈ h.gone) :
    (∀ i, db.store.mem.get c i = none) ∧ db.store.mem.scan c = [] ∧
      ∀ t, (∀ ts, (c,ts) ∈ h.returned → ts ≤ t) →
        (∀ i, db.store.mem.getAsOf c i t = none) ∧ db.store.mem.scanAsOf c t = [] := by
  obtain ⟨-,-,-,-,buried⟩ := shadowed
  obtain ⟨none,empty,asOf⟩ := db.store.mem.unreadable_forgotten c
  have get (i : RecordId) : db.store.mem.get c i = .none := (get_eq ..).trans (buried c gone i).value_latest
  refine ⟨get,(scan_congr _ _ c fun i => (get i).trans (none i).symm).trans empty,fun t later => ?_⟩
  have past (i : RecordId) : db.store.mem.getAsOf c i t = .none :=
    (getAsOf_eq ..).trans ((buried c gone i).value_visibleAt later)
  exact ⟨past,(scanAsOf_congr _ _ c t t fun i => (past i).trans ((asOf t).1 i).symm).trans (asOf t).2⟩

end shadowed

namespace Database

section
variable [Host] {db db' : Database} {shown : List SchemaEvent}

theorem shadowed_step {now : List SchemaEvent} {c : SchemaCall}
    (shadowed : Shadowed codec (Drops.of shown) db) (clean : faultlessSchema c = true)
    (readable : Readable codec (db.schemaWritten c)) (called : db.schemaCall codec c = some (db',now)) :
    Shadowed codec (Drops.of (shown ++ now)) db' := by
  rw [Drops.of,List.foldl_append,← Drops.of]
  cases c with
  | data call =>
    obtain ⟨p,taken,same⟩ := Option.map_eq_some_iff.mp called
    cases same
    exact shadowed.call clean readable taken
  | putSchema fault schema =>
    obtain rfl : fault = none := by simpa [faultlessSchema] using clean
    cases called
    exact shadowed.putSchema schema
  | dropSchema append save name =>
    obtain ⟨rfl,rfl⟩ : append = none ∧ save = none := by simpa [faultlessSchema] using clean
    cases called
    cases held : db.store.mem.schemas.contains name with
    | true =>
      have after := shadowed.dropSchema name held readable
      simp only [dropSchema_held codec name db.disk db.store held] at after ⊢
      exact after
    | false => simpa [Store.dropSchema,held] using shadowed

theorem SchemaRuns.shadowed (start : Opened codec syncOnCommit d db) (run : SchemaRuns codec db shown db') :
    Shadowed codec (Drops.of shown) db' :=
  run.invariant (fun shown db => Shadowed codec (Drops.of shown) db) start.shadowed
    (fun _ _ _ _ _ shadowed allowed called => shadowed_step shadowed allowed.1 allowed.2 called)

/-- Over every history, from a drop on and as long as nothing is written to it, nothing of a collection is
readable, except as of a timestamp before a drop that a restart came upon before a rewrite; and opening the
directory again changes no read, except as of one before a drop that neither has followed. -/
theorem dropped_durable (codec : Codec Batch) (syncOnCommit : Bool) (d : Disk) (db db' : Database)
    (shown : List SchemaEvent) (start : Opened codec syncOnCommit d db) (run : SchemaRuns codec db shown db') :
    (∀ c ∈ (Drops.of shown).gone, (∀ i, db'.store.mem.get c i = none) ∧ db'.store.mem.scan c = [] ∧
      ∀ t, (∀ ts, (c,ts) ∈ (Drops.of shown).returned → ts ≤ t) →
        (∀ i, db'.store.mem.getAsOf c i t = none) ∧ db'.store.mem.scanAsOf c t = []) ∧
    ∃ d' st, openWith codec db'.store.syncOnCommit db'.disk = (d',.ok st) ∧
      st.mem.schemas = db'.store.mem.schemas ∧ SameReadsSince (Drops.of shown).fresh st.mem db'.store.mem := by
  have shadowed := SchemaRuns.shadowed start run
  exact ⟨fun c gone => shadowed.unreadable gone,shadowed.reopens db'.store.syncOnCommit⟩

end

def dropCodec : Codec Batch :=
  oneByte fun n => if n = 0 then ⟨0,[.delete 2 "Item" 1]⟩ else ⟨n,[.put n ⟨n,"Item",tinyFields,1,n⟩]⟩

def itemCalls : List SchemaCall :=
  [.putSchema none ⟨"Item",[],[],[]⟩,.data (.commitBatch none (tinyBatch 1)),.dropSchema none none "Item"]

/-- The drop is followed by a compaction and that by a restart. -/
theorem dropped_durable_item : ∃ db' shown, @SchemaRuns plainHost dropCodec tinyDatabase shown db' ∧
    Drops.of shown = ⟨[],[],["Item"]⟩ ∧ (∀ i t, db'.store.mem.getAsOf "Item" i t = none) ∧
    ∃ d st, openWith dropCodec db'.store.syncOnCommit db'.disk = (d,.ok st) ∧
      ∀ i t, st.mem.getAsOf "Item" i t = db'.store.mem.getAsOf "Item" i t := by
  obtain ⟨db',shown,run,same⟩ := @Run.exists_of_admitted _ _ _ (@schemaCall plainHost dropCodec)
    (fun db c => faultlessSchema c = true ∧ Readable dropCodec (db.schemaWritten c)) _
    (itemCalls ++ [.data (.compact none fun _ => false),.data .reopen]) tinyDatabase
    (fun _ shown => Drops.of shown = ⟨[],[],["Item"]⟩) (by decide +kernel)
  obtain ⟨unreadable,d,st,opened,-,reads⟩ := @dropped_durable plainHost dropCodec true ⟨none,∅,∅⟩ tinyDatabase db'
    shown ⟨by simp,rfl,by simp⟩ run
  rw [same] at unreadable reads
  refine ⟨db',shown,run,same,fun i t => ?_,d,st,opened,fun i t => reads.getAsOf "Item" t nofun i⟩
  exact ((unreadable "Item" (by simp)).2.2 t nofun).1 i

/-- After a restart a read at timestamp one finds an item of the dropped collection again. -/
theorem dropped_returns : ∃ db' shown, @SchemaRuns plainHost dropCodec tinyDatabase shown db' ∧
    SchemaEvent.dropped "Item" 2 ∈ shown ∧ db'.store.mem.getAsOf "Item" 1 1 = none ∧
    ∃ d st, openWith dropCodec db'.store.syncOnCommit db'.disk = (d,.ok st) ∧
      (st.mem.getAsOf "Item" 1 1).isSome = true := by
  obtain ⟨db',shown,run,dropped,absent,st,opened,back⟩ := @Run.exists_of_admitted _ _ _ (@schemaCall plainHost dropCodec)
    (fun db c => faultlessSchema c = true ∧ Readable dropCodec (db.schemaWritten c)) _ itemCalls tinyDatabase
    (fun db shown => SchemaEvent.dropped "Item" 2 ∈ shown ∧ db.store.mem.getAsOf "Item" 1 1 = none ∧
      ∃ st, (openWith dropCodec db.store.syncOnCommit db.disk).2 = .ok st ∧ (st.mem.getAsOf "Item" 1 1).isSome = true)
    (by decide +kernel)
  exact ⟨db',shown,run,dropped,absent,_,st,Prod.ext rfl opened,back⟩

end Database

end AuraDb
