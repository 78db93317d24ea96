import AuraDb.Engine.Read
import AuraDb.Engine.Replicated

/-! The logical state of an engine as a snapshot carries it, and its installation into an engine that holds
data: schemas are put, then records upserted in one batch. Nothing is removed. -/
namespace AuraDb
open Library Std CollectionIndexes

/-- Ids and versions of the records are not kept. -/
structure SnapshotData where
  schemas : List CollectionSchema
  records : List (String × Document)
  deriving DecidableEq

/-- How the file steps of an install went: the catalog after each schema, the batch, the statistics. -/
structure InstallSteps where
  saved : Nat → Result Unit
  appended : Result Unit
  analyzed : Result Unit

namespace Engine

def listSchemas (e : Engine) : List CollectionSchema := e.storage.schemas.toList.map Prod.snd

section
variable {elapsed : Stopwatch} {e e' leader : Engine} {data : SnapshotData} {saved : Nat → Result Unit}
  {steps : InstallSteps}

structure Keyed (e : Engine) : Prop where
  records : e.storage.WellFormed
  schemas : ∀ (c : String) schema, e.storage.schemas[c]? = some schema → schema.name = c

theorem Keyed.mem_listSchemas (keyed : e.Keyed) (schema : CollectionSchema) :
    schema ∈ e.listSchemas ↔ e.storage.schemas[schema.name]? = some schema := by
  simp only [listSchemas,List.mem_map,Prod.exists,exists_eq_right,ExtTreeMap.mem_toList_iff_getElem?_eq_some]
  constructor
  · rintro ⟨c,found⟩
    rwa [keyed.schemas c schema found]
  · intro found
    exact ⟨schema.name,found⟩

def declared (schemas : List CollectionSchema) (held : ExtTreeMap String CollectionSchema compare) :
    ExtTreeMap String CollectionSchema compare :=
  schemas.foldl (fun held schema => held.insert schema.name schema) held

theorem schemaFor_ok {c : String} {schema : CollectionSchema} (known : e.schemaFor c = .ok schema) :
    e.storage.schemas[c]? = some schema := by
  unfold schemaFor Storage.getSchema at known
  split at known
  · cases known
    assumption
  · cases known

theorem get_applyCommittedBatch {s s' : Storage} (ok : s.WellFormed) {io : Result Unit} {batch : Batch} {ts : Nat}
    (newer : s.lastCommitTs < ts) (done : s.applyCommittedBatch io batch ts = (s',.ok ())) (c : String) (i : RecordId) :
    s'.get c i = (lastWrite batch.ops c i).getD (s.get c i) := by
  unfold Storage.applyCommittedBatch at done
  rw [if_neg (Nat.not_le.mpr newer)] at done
  split at done
  · rename_i empty
    cases done
    rw [List.isEmpty_iff.mp empty]
    rfl
  · split at done
    · cases done
    · cases done
      exact Storage.get_applied ok ts batch newer c i

theorem Keyed.declared_listed (keyed : e.Keyed) {schemas : List CollectionSchema}
    (listed : ∀ schema, schema ∈ schemas ↔ schema ∈ e.listSchemas) (held : ExtTreeMap String CollectionSchema compare)
    (c : String) : (declared schemas held)[c]? = e.storage.schemas[c]?.or held[c]? := by
  rw [declared,TreeMap.getElem?_foldl_insert_own]
  congr 1
  cases found : schemas.reverse.find? (fun schema => schema.name = c) with
  | none =>
    symm
    rw [Option.eq_none_iff_forall_ne_some]
    intro schema declared
    have named := keyed.schemas c schema declared
    have inside := (listed schema).mpr ((keyed.mem_listSchemas schema).mpr (named ▸ declared))
    simpa [named] using List.find?_eq_none.mp found schema (List.mem_reverse.mpr inside)
  | some schema =>
    have named : schema.name = c := by simpa using List.find?_some found
    have inside := List.mem_reverse.mp (List.mem_of_find?_eq_some found)
    rw [← named,(keyed.mem_listSchemas schema).mp ((listed schema).mp inside)]

private theorem or_eq_left_iff {α : Type} {there held : Option α} :
    there.or held = there ↔ (held.isSome → there.isSome) := by
  cases there with
  | none => cases held <;> simp
  | some a => simp

variable [Host] (records : List (String × Document))

def captureAll [Ranked] (e : Engine) (elapsed : Stopwatch) : List CollectionSchema → Result (List (String × Document))
  | [] => .ok []
  | schema::rest => do
    let rows ← find e.committedView (.new schema.name) elapsed
    let others ← e.captureAll elapsed rest
    return rows.map (fun row => (schema.name,row.fields)) ++ others

def capture [Ranked] (e : Engine) (elapsed : Stopwatch) : Result SnapshotData :=
  (e.captureAll elapsed e.listSchemas).map (fun records => ⟨e.listSchemas,records⟩)

def installSchemas (saved : Nat → Result Unit) : Nat → List CollectionSchema → Engine → Engine × Result Unit
  | _, [], e => (e,.ok ())
  | n, schema::rest, e => match e.createSchema (saved n) schema with
    | (e,.error err) => (e,.error err)
    | (e,.ok ()) => installSchemas saved (n + 1) rest e

def upsertOf (e : Engine) (id : RecordId) (collection : String) (fields : Document) : LogOp :=
  .put 0 ⟨id,collection,fields,((e.storage.get collection id).map (·.version + 1)).getD 1,0⟩

/-- Each record takes a tick of the clock, also where the primary key gives the id. -/
def upsertOps : List (String × Document) → Engine → Engine × Result (List LogOp)
  | [], e => (e,.ok [])
  | (collection,fields)::rest, e => match e.schemaFor collection with
    | .error err => (e,.error err)
    | .ok schema => match recordIdFor schema fields e.clock with
      | .error err => ({ e with clock := e.clock + 1 },.error err)
      | .ok id =>
        let next := upsertOps rest { e with clock := e.clock + 1 }
        (next.1,next.2.map (e.upsertOf id collection fields :: ·))

def analyzeAll (saved : Result Unit) (e : Engine) : Engine × Result Unit :=
  ({ e with plannerStats := e.listSchemas.foldl (fun stats schema =>
      stats.insert schema.name (.compute schema (e.storage.scan schema.name))) ∅ },saved)

def installSnapshot (steps : InstallSteps) (data : SnapshotData) (logIndex : Nat) (e : Engine) : Engine × Outcome Unit :=
  if logIndex ≤ e.storage.commitWatermark then (e,.ok ()) else
  match e.installSchemas steps.saved 0 data.schemas with
  | (e,.error err) => (e,.err err)
  | (e,.ok ()) => match e.upsertOps data.records with
    | (e,.error err) => (e,.err err)
    | (e,.ok ops) => match e.applyReplicatedBatch steps.appended ⟨0,ops⟩ logIndex with
      | (e,.ok ()) => ((e.analyzeAll steps.analyzed).1,.ofResult (e.analyzeAll steps.analyzed).2)
      | stopped => stopped

theorem find_new [Ranked] {src : Source} {c : String} {schema : CollectionSchema} {idx : CollectionIndexes}
    (declared : src.requireSchema c = .ok schema) (indexed : src.requireIndexes c = .ok idx)
    (scanned : ∀ r ∈ src.scan c, src.get c r.id = some r) (elapsed : Stopwatch) :
    ∃ rows, find src (.new c) elapsed = .ok rows ∧ rows.map (·.fields) = (src.scan c).map (·.fields) := by
  let q := FindQuery.new c
  have only : q.FilterOnly := ⟨rfl,rfl,rfl,rfl,rfl⟩
  have accepted : q.validateSearchClauses = .ok () := rfl
  change src.requireSchema q.collection = _ at declared
  change src.requireIndexes q.collection = _ at indexed
  -- without a filter the planner has no candidate but the scan
  have planned : planAccess src q schema idx = .scan := by
    have among := planFind_mem q schema idx (src.stats c)
      (if (src.stats c).isSome then 0 else (src.scan c).length) only.plain
    have unfiltered : q.filter = none := rfl
    simp only [candidates,unfiltered,Option.elim_none,List.nil_append,List.mem_singleton] at among
    exact congrArg Candidate.access among
  let found := (src.scan c).map (fun r => Scored.plain r.id)
  have kept : found.filter (fun cand => keeps src c none cand.id) = found := by
    refine List.filter_eq_self.mpr (fun cand inside => ?_)
    obtain ⟨r,listed,rfl⟩ := List.mem_map.mp inside
    simp [keeps,Scored.plain,scanned r listed,Filter.optional]
  have executed : executeFind src q (.afterMs q.timeoutMs elapsed) = .ok found := by
    have ran : findVia src q (.afterMs q.timeoutMs elapsed) idx .scan = .ok found := by
      have filtered := @filterCandidates_unlimited _ src q (.afterMs q.timeoutMs elapsed) rfl 0 found
      exact (congrArg (Except.map _) filtered).trans (congrArg Except.ok kept)
    rw [← planned] at ran
    unfold executeFind
    rw [bind_of_ok accepted,bind_of_ok declared,bind_of_ok indexed]
    exact ran
  have held (cand : Scored) (inside : cand ∈ found) : ∃ r, src.get c cand.id = some r := by
    obtain ⟨r,listed,rfl⟩ := List.mem_map.mp inside
    exact ⟨r,scanned r listed⟩
  obtain ⟨rows,shown,ids,rowOf⟩ := @materializeRows_bare _ _ src schema q only.whole found held 0
  refine ⟨rows,?_,?_⟩
  · rw [find,bind_of_ok executed,materialize,bind_of_ok declared]
    exact shown
  · let read := fun i => ((src.get c i).map (·.fields)).getD []
    calc rows.map (·.fields) = rows.map (fun row => read row.id) := by
          refine List.map_congr_left (fun row inside => ?_)
          obtain ⟨r,isLive,fields⟩ := rowOf row inside
          have isLive : src.get c row.id = some r := isLive
          simp only [read,isLive,fields]
          rfl
      _ = (found.map (·.id)).map read := by rw [← ids,List.map_map]; rfl
      _ = (src.scan c).map (·.fields) := by
          rw [List.map_map,List.map_map]
          refine List.map_congr_left (fun r listed => ?_)
          simp [read,Scored.plain,scanned r listed]

theorem find_new_fields [Ranked] {src : Source} {c : String} (scanned : ∀ r ∈ src.scan c, src.get c r.id = some r)
    {rows : List Row} (done : find src (.new c) elapsed = .ok rows) :
    rows.map (·.fields) = (src.scan c).map (·.fields) := by
  obtain ⟨found,executed,-⟩ := bind_ok done
  obtain ⟨-,-,executed⟩ := bind_ok executed
  obtain ⟨schema,declared,executed⟩ := bind_ok executed
  obtain ⟨idx,indexed,-⟩ := bind_ok executed
  obtain ⟨rows',found,fields⟩ := find_new declared indexed scanned elapsed
  obtain rfl : rows' = rows := Except.ok.inj (found.symm.trans done)
  exact fields

theorem mem_captureAll [Ranked] (ok : e.storage.WellFormed) (schemas : List CollectionSchema)
    {records : List (String × Document)} (done : e.captureAll elapsed schemas = .ok records) (c : String)
    (fields : Document) :
    (c,fields) ∈ records ↔ ∃ schema ∈ schemas, schema.name = c ∧ ∃ r ∈ e.storage.scan c, r.fields = fields := by
  induction schemas generalizing records with
  | nil =>
    cases done
    simp
  | cons schema rest ih =>
    obtain ⟨rows,found,done⟩ := bind_ok done
    obtain ⟨others,gathered,done⟩ := bind_ok done
    cases done
    have here := find_new_fields (fun r => (ok.mem_scan_iff schema.name r).mp) found
    have listed (fields : Document) : (∃ row ∈ rows, row.fields = fields) ↔
        ∃ r ∈ e.storage.scan schema.name, r.fields = fields := by
      rw [← List.mem_map,here,List.mem_map]
      rfl
    simp only [List.mem_append,List.mem_map,Prod.mk.injEq,ih gathered,List.mem_cons,exists_eq_or_imp]
    refine or_congr ?_ Iff.rfl
    constructor
    · rintro ⟨row,inside,rfl,shown⟩
      exact ⟨rfl,(listed fields).mp ⟨row,inside,shown⟩⟩
    · rintro ⟨rfl,held⟩
      obtain ⟨row,inside,shown⟩ := (listed fields).mpr held
      exact ⟨row,inside,rfl,shown⟩

theorem capture_ok [Ranked] (captured : e.capture elapsed = .ok data) :
    data.schemas = e.listSchemas ∧ e.captureAll elapsed e.listSchemas = .ok data.records := by
  unfold capture at captured
  cases gathered : e.captureAll elapsed e.listSchemas with
  | error err => simp [gathered,Except.map] at captured
  | ok records =>
    simp only [gathered,Except.map,Except.ok.injEq] at captured
    subst captured
    exact ⟨rfl,rfl⟩

theorem Keyed.mem_capture [Ranked] (keyed : e.Keyed) (captured : e.capture elapsed = .ok data) (c : String)
    (fields : Document) :
    (c,fields) ∈ data.records ↔ (e.storage.schemas[c]?).isSome ∧ ∃ i r, e.storage.get c i = some r ∧ r.fields = fields := by
  rw [mem_captureAll keyed.records _ (capture_ok captured).2]
  constructor
  · rintro ⟨schema,listed,rfl,r,inside,shown⟩
    rw [(keyed.mem_listSchemas schema).mp listed]
    exact ⟨rfl,r.id,r,(keyed.records.mem_scan_iff _ r).mp inside,shown⟩
  · rintro ⟨declared,i,r,isLive,shown⟩
    obtain ⟨schema,found⟩ := Option.isSome_iff_exists.mp declared
    have named := keyed.schemas c schema found
    refine ⟨schema,(keyed.mem_listSchemas schema).mpr (named ▸ found),named,r,?_,shown⟩
    rw [keyed.records.mem_scan_iff,(keyed.records.get_keyed c i r isLive).2,isLive]

structure Declares (schemas : List CollectionSchema) (e e' : Engine) : Prop where
  same : SameData e e'
  catalog : e'.storage.schemas = declared schemas e.storage.schemas
  wellFormed : e.storage.WellFormed → e'.storage.WellFormed

theorem installSchemas_done (schemas : List CollectionSchema) {n : Nat}
    (done : e.installSchemas saved n schemas = (e',.ok ())) : Declares schemas e e' := by
  induction schemas generalizing n e with
  | nil =>
    cases done
    exact ⟨⟨fun _ => rfl,rfl⟩,rfl,id⟩
  | cons schema rest ih =>
    cases made : e.createSchema (saved n) schema with
    | mk mid result =>
      cases result with
      | error err => simp [installSchemas,made] at done
      | ok u =>
        simp only [installSchemas,made] at done
        have storage := storage_createSchema (saved n) schema e
        have same := sameData_createSchema (saved n) schema e
        have catalog := catalog_createSchema (saved n) e (((createSchema_ok_iff ..).mp (congrArg Prod.snd made)).1)
        rw [made] at storage same catalog
        have later := ih done
        refine ⟨same.trans later.same,?_,?_⟩
        · rw [later.catalog,catalog]
          rfl
        · intro ok
          exact later.wellFormed (storage ▸ ok.putSchema (saved n) schema)

/-- It is valid, the catalog is saved, and the records there can be indexed. -/
def Creatable (e : Engine) (saved : Result Unit) (schema : CollectionSchema) : Prop :=
  schema.validateDefinition = .ok () ∧ saved = .ok () ∧
    ∃ idx, (fromSchema schema).rebuild (e.storage.scan schema.name) = .ok idx

def putAll (schemas : List CollectionSchema) (s : Storage) : Storage :=
  schemas.foldl (fun s schema => (s.putSchema (.ok ()) schema).1) s

def indexAll (s : Storage) (schemas : List CollectionSchema) (indexes : Indexes) : Indexes :=
  schemas.foldl (fun held schema => held.insert schema.name (rebuilt s schema)) indexes

theorem indexAll_congr {s s' : Storage} (scans : ∀ c, s'.scan c = s.scan c) : indexAll s' = indexAll s := by
  funext schemas indexes
  simp only [indexAll,rebuilt,scans]

/-- All schemas are created, or one is not, after those before it were. -/
theorem installSchemas_cases (schemas : List CollectionSchema) (n : Nat) (e : Engine) :
    (∃ e', e.installSchemas saved n schemas = (e',.ok ()) ∧
      (∀ m schema, schemas[m]? = some schema → e.Creatable (saved (n + m)) schema) ∧
      e'.storage = putAll schemas e.storage ∧ e'.indexes = indexAll e.storage schemas e.indexes) ∨
    ∃ e' err k schema, e.installSchemas saved n schemas = (e',.error err) ∧ schemas[k]? = some schema ∧
      ¬ e.Creatable (saved (n + k)) schema ∧
      (∀ m < k, ∀ schema, schemas[m]? = some schema → e.Creatable (saved (n + m)) schema) ∧
      e'.storage = ((putAll (schemas.take k) e.storage).putSchema (saved (n + k)) schema).1 ∧
      e'.indexes = indexAll e.storage (schemas.take k) e.indexes := by
  induction schemas generalizing n e with
  | nil => exact .inl ⟨e,rfl,by simp,rfl,rfl⟩
  | cons schema rest ih =>
    have creates := createSchema_ok_iff (saved n) schema e
    have storage := storage_createSchema (saved n) schema e
    generalize created : e.createSchema (saved n) schema = step at creates storage
    obtain ⟨mid,result⟩ := step
    rcases createSchema_cases (saved n) schema e with ⟨done,indexes⟩ | ⟨⟨err,failed⟩,put⟩
    · simp only [created] at done indexes storage
      obtain ⟨valid,isSaved,made⟩ := creates.mp done
      have scans (c : String) : mid.storage.scan c = e.storage.scan c := storage ▸ scan_putSchema ..
      have shifted (m : Nat) : n + 1 + m = n + (m + 1) := by omega
      have here := ih (n + 1) mid
      simp only [installSchemas,created,done]
      simp only [Creatable,scans,shifted,indexAll_congr scans] at here
      simp only [storage,indexes,isSaved] at here
      rcases here with ⟨e',installed,all,same⟩ | ⟨e',err,k,other,installed,found,refused,before,same⟩
      · refine .inl ⟨e',installed,?_,same⟩
        rintro (_ | m) next held
        · obtain rfl : schema = next := by simpa using held
          exact ⟨valid,isSaved,made⟩
        · exact all m next (by simpa using held)
      · refine .inr ⟨e',err,k + 1,other,installed,by simpa using found,refused,?_,same⟩
        rintro (_ | m) below next held
        · obtain rfl : schema = next := by simpa using held
          exact ⟨valid,isSaved,made⟩
        · exact before m (by omega) next (by simpa using held)
    · simp only [created] at failed put
      refine .inr ⟨mid,err,0,schema,?_,rfl,fun creatable => ?_,by simp,by rw [put]; rfl,by rw [put]; rfl⟩
      · simp only [installSchemas,created,failed]
      · cases failed.symm.trans (creates.mpr creatable)

def Upserts (schemas : ExtTreeMap String CollectionSchema compare) (p : String × Document) (op : LogOp) : Prop :=
  ∃ schema clock id version, schemas[p.1]? = some schema ∧ recordIdFor schema p.2 clock = .ok id ∧
    op = .put 0 ⟨id,p.1,p.2,version,0⟩

theorem upsertOps_frame (e : Engine) : ∃ clock, (e.upsertOps records).1 = { e with clock := clock } := by
  induction records generalizing e with
  | nil => exact ⟨e.clock,rfl⟩
  | cons p rest ih =>
    unfold upsertOps
    split
    · exact ⟨e.clock,rfl⟩
    · split
      · exact ⟨e.clock + 1,rfl⟩
      · exact ih { e with clock := e.clock + 1 }

structure UpsertsAll (schemas : ExtTreeMap String CollectionSchema compare) (records : List (String × Document))
    (ops : List LogOp) : Prop where
  each : ∀ p ∈ records, ∃ op ∈ ops, Upserts schemas p op
  only : ∀ op ∈ ops, ∃ p ∈ records, Upserts schemas p op

theorem upsertOps_done {ops : List LogOp}
    (done : (e.upsertOps records).2 = .ok ops) : UpsertsAll e.storage.schemas records ops := by
  induction records generalizing e ops with
  | nil =>
    cases done
    exact ⟨by simp,by simp⟩
  | cons p rest ih =>
    obtain ⟨c,fields⟩ := p
    simp only [upsertOps] at done
    split at done
    · cases done
    rename_i schema known
    split at done
    · cases done
    rename_i id given
    cases others : (upsertOps rest { e with clock := e.clock + 1 }).2 with
    | error err => simp [others,Except.map] at done
    | ok more =>
      simp only [others,Except.map,Except.ok.injEq] at done
      subst done
      obtain ⟨each,only⟩ := ih others
      have first : Upserts e.storage.schemas (c,fields) (e.upsertOf id c fields) :=
        ⟨schema,_,id,_,schemaFor_ok known,given,rfl⟩
      refine ⟨?_,?_⟩
      · intro q inside
        rcases List.mem_cons.mp inside with rfl | later
        · exact ⟨_,List.mem_cons_self,first⟩
        · obtain ⟨op,among,upserts⟩ := each q later
          exact ⟨op,List.mem_cons_of_mem _ among,upserts⟩
      · intro op inside
        rcases List.mem_cons.mp inside with rfl | later
        · exact ⟨_,List.mem_cons_self,first⟩
        · obtain ⟨q,among,upserts⟩ := only op later
          exact ⟨q,List.mem_cons_of_mem _ among,upserts⟩

/-- An installed snapshot: its schemas are declared over those that were there, its records upserted over the
live ones. -/
theorem installSnapshot_done {logIndex : Nat} (ok : e.storage.WellFormed)
    (above : e.storage.commitWatermark < logIndex) (done : e.installSnapshot steps data logIndex = (e',.ok ())) :
    e'.storage.schemas = declared data.schemas e.storage.schemas ∧
      ∃ ops, UpsertsAll e'.storage.schemas data.records ops ∧
        ∀ c i, e'.storage.get c i = (lastWrite ops c i).getD (e.storage.get c i) := by
  unfold installSnapshot at done
  rw [if_neg (Nat.not_le.mpr above)] at done
  split at done
  · cases done
  rename_i mid installed
  obtain ⟨same,catalog,kept⟩ := installSchemas_done data.schemas installed
  have wellFormed := kept ok
  split at done
  · cases done
  rename_i ticked ops upserted
  obtain ⟨clock,framed⟩ := upsertOps_frame data.records mid
  have upserts := upsertOps_done data.records (congrArg Prod.snd upserted)
  rw [upserted] at framed
  subst framed
  split at done
  · rename_i last applied
    have stored := applyReplicatedBatch_ok applied
    have schemas := (wellFormed.applyCommittedBatch steps.appended ⟨0,ops⟩ logIndex).2
    rw [stored] at schemas
    obtain ⟨rfl,-⟩ := Prod.ext_iff.mp done
    refine ⟨schemas.trans catalog,ops,?_,?_⟩
    · change UpsertsAll last.storage.schemas data.records ops
      rwa [schemas]
    · intro c i
      have newer : mid.storage.lastCommitTs < logIndex := same.watermark.trans_lt above
      rw [← same.live c]
      exact get_applyCommittedBatch wellFormed newer stored c i
  · rename_i other
    exact absurd done (other e')

/-- The collection is declared, and the record has its primary key. -/
def Named (schemas : ExtTreeMap String CollectionSchema compare) (p : String × Document) : Prop :=
  ∃ schema, schemas[p.1]? = some schema ∧ ∃ id, recordIdFor schema p.2 0 = .ok id

theorem recordIdFor_ok_iff (schema : CollectionSchema) (fields : Document) (clock : Nat) :
    (∃ id, recordIdFor schema fields clock = .ok id) ↔ ∃ id, recordIdFor schema fields 0 = .ok id := by
  unfold recordIdFor
  split <;> simp

theorem upsertOps_ok_iff (e : Engine) :
    (∃ ops, (e.upsertOps records).2 = .ok ops) ↔ ∀ p ∈ records, Named e.storage.schemas p := by
  induction records generalizing e with
  | nil => simp [upsertOps]
  | cons p rest ih =>
    obtain ⟨c,fields⟩ := p
    have others := ih { e with clock := e.clock + 1 }
    cases held : e.storage.schemas[c]? with
    | none => simp [upsertOps,schemaFor,Storage.getSchema,Named,held]
    | some schema =>
      have ids := recordIdFor_ok_iff schema fields e.clock
      cases given : recordIdFor schema fields e.clock with
      | error err => simp_all [upsertOps,schemaFor,Storage.getSchema,Named]
      | ok id =>
        cases more : (upsertOps rest { e with clock := e.clock + 1 }).2 <;>
          simp_all [upsertOps,schemaFor,Storage.getSchema,Named,Except.map]

theorem updateIndexes_ok (updates : List Update) (indexes : Indexes) (leave : ∀ u ∈ updates, u.2.isSome) :
    ∃ affected, (updateIndexes updates indexes).2 = some affected := by
  induction updates generalizing indexes with
  | nil => exact ⟨[],rfl⟩
  | cons u rest ih =>
    obtain ⟨old,new⟩ := u
    obtain ⟨record,rfl⟩ := Option.isSome_iff_exists.mp (leave (old,new) List.mem_cons_self)
    have named : ∃ c, (old.or (some record)).map (·.collection) = some c := by
      cases old <;> exact ⟨_,rfl⟩
    obtain ⟨c,named⟩ := named
    obtain ⟨affected,others⟩ := ih (indexes.alter c (Option.map (·.replace old (some record))))
      (fun u inside => leave u (List.mem_cons_of_mem _ inside))
    exact ⟨c::affected,by simp only [updateIndexes,named,others]; rfl⟩

/-- A batch of puts above the watermark is refused by the log alone. -/
theorem applyReplicatedBatch_puts (e : Engine) (io : Result Unit) {batch : Batch}
    (puts : ∀ op ∈ batch.ops, op.value.isSome) {logIndex : Nat} (above : e.storage.commitWatermark < logIndex) :
    (batch.ops ≠ [] ∧ io ≠ .ok ()) ∧ (∃ err, e.applyReplicatedBatch io batch logIndex = (e,.err err)) ∨
    (batch.ops = [] ∨ io = .ok ()) ∧ ∃ e', e.applyReplicatedBatch io batch logIndex = (e',.ok ()) ∧
      e'.storage.commitWatermark = logIndex := by
  obtain ⟨affected,updated⟩ := updateIndexes_ok (batch.ops.map e.replicatedUpdate) e.indexes (by
    simpa [replicatedUpdate] using puts)
  have finished (s : Storage) (message : String) : ∃ e',
      { e with storage := s }.finishCommit (batch.ops.map e.replicatedUpdate) message = (e',.ok ()) ∧ e'.storage = s :=
    ⟨_,Prod.ext rfl (by simp only [finishCommit,updated]),storage_finishCommit ..⟩
  have newer : ¬ logIndex ≤ e.storage.lastCommitTs := Nat.not_le.mpr above
  simp only [applyReplicatedBatch,Storage.applyCommittedBatch,Storage.commitWatermark,newer,if_false]
  by_cases blank : batch.ops = []
  · obtain ⟨e',done,storage⟩ := finished { e.storage with lastCommitTs := logIndex } "a replicated op always names a record"
    exact .inr ⟨.inl blank,e',by simpa [blank] using done,by rw [storage]⟩
  · cases io with
    | error err => exact .inl ⟨⟨blank,by simp⟩,err,by simp [blank]⟩
    | ok done =>
      obtain ⟨e',done,storage⟩ := finished (e.storage.applied logIndex batch) "a replicated op always names a record"
      exact .inr ⟨.inr rfl,e',by simpa [blank] using done,by rw [storage]; rfl⟩

/-- A schema is not created, after those before it have changed nothing. -/
def StopsAtSchema (e : Engine) (saved : Nat → Result Unit) (schemas : List CollectionSchema) : Prop :=
  ∃ k schema, schemas[k]? = some schema ∧ ¬ e.Creatable (saved k) schema ∧
    (∀ m < k, ∀ schema, schemas[m]? = some schema → e.Creatable (saved m) schema) ∧
    ((putAll (schemas.take k) e.storage).putSchema (saved k) schema).1 = e.storage ∧
    indexAll e.storage (schemas.take k) e.indexes = e.indexes

structure Installable (e : Engine) (steps : InstallSteps) (data : SnapshotData) : Prop where
  schemas : ∀ m schema, data.schemas[m]? = some schema → e.Creatable (steps.saved m) schema
  records : ∀ p ∈ data.records, Named (declared data.schemas e.storage.schemas) p
  appended : data.records = [] ∨ steps.appended = .ok ()
  analyzed : steps.analyzed = .ok ()

/-- The install fails before it has changed the storage or an index: at a schema, or where the schemas were all there
with their indexes, at a record or the log. -/
def StopsEarly (e : Engine) (steps : InstallSteps) (data : SnapshotData) : Prop :=
  e.StopsAtSchema steps.saved data.schemas ∨
    (∀ m schema, data.schemas[m]? = some schema → e.Creatable (steps.saved m) schema) ∧
    (putAll data.schemas e.storage = e.storage ∧ indexAll e.storage data.schemas e.indexes = e.indexes) ∧
    ((∃ p ∈ data.records, ¬ Named (declared data.schemas e.storage.schemas) p) ∨
      data.records ≠ [] ∧ steps.appended ≠ .ok ())

theorem installSnapshot_above {logIndex : Nat} (above : e.storage.commitWatermark < logIndex) :
    let next := e.installSnapshot steps data logIndex
    (∃ err, next.2 = .err err) ∧ ¬ e.Installable steps data ∧
      (next.1.storage = e.storage ∧ next.1.indexes = e.indexes ↔ e.StopsEarly steps data) ∨
    next.1.storage ≠ e.storage ∧ ¬ e.StopsEarly steps data ∧
      (next.2 = .ok () ∧ e.Installable steps data ∨ (∃ err, next.2 = .err err) ∧ ¬ e.Installable steps data) := by
  intro next
  have unfolded : next = e.installSnapshot steps data logIndex := rfl
  rw [installSnapshot,if_neg (Nat.not_le.mpr above)] at unfolded
  rcases installSchemas_cases data.schemas 0 e with ⟨mid,installed,all,same⟩ |
    ⟨mid,err,k,schema,installed,found,refused,before,same⟩
  · simp only [Nat.zero_add] at all
    have never : ¬ e.StopsAtSchema steps.saved data.schemas := by
      rintro ⟨k,schema,found,refused,-⟩
      exact refused (all k schema found)
    have catalog := (installSchemas_done data.schemas installed).catalog
    have watermark := (installSchemas_done data.schemas installed).same.watermark
    have named := upsertOps_ok_iff data.records mid
    obtain ⟨clock,framed⟩ := upsertOps_frame data.records mid
    rw [catalog] at named
    simp only [installed] at unfolded
    have kept (late : (∃ p ∈ data.records, ¬ Named (declared data.schemas e.storage.schemas) p) ∨
        data.records ≠ [] ∧ steps.appended ≠ .ok ()) :
        mid.storage = e.storage ∧ mid.indexes = e.indexes ↔ e.StopsEarly steps data := by
      rw [same.1,same.2]
      constructor
      · exact fun kept => .inr ⟨all,kept,late⟩
      · rintro (stops | ⟨-,kept,-⟩)
        · exact absurd stops never
        · exact kept
    rcases upserted : mid.upsertOps data.records with ⟨ticked,err | ops⟩
    · simp only [upserted,reduceCtorEq,exists_false,false_iff] at unfolded framed named
      rw [unfolded,framed]
      refine .inl ⟨⟨err,rfl⟩,fun installable => named installable.records,kept (.inl ?_)⟩
      simpa using named
    · have isNamed := named.mp ⟨ops,by rw [upserted]⟩
      obtain ⟨each,only⟩ := upsertOps_done data.records (congrArg Prod.snd upserted)
      have blank : ops = [] ↔ data.records = [] := by
        constructor
        · rintro rfl
          exact List.eq_nil_iff_forall_not_mem.mpr (fun p inside => by simpa using each p inside)
        · intro none
          exact List.eq_nil_iff_forall_not_mem.mpr (fun op inside => by simpa [none] using only op inside)
      have puts (op : LogOp) (inside : op ∈ ops) : op.value.isSome := by
        obtain ⟨p,-,schema,clock,id,version,-,-,rfl⟩ := only op inside
        rfl
      simp only [upserted] at unfolded framed
      have newer : ticked.storage.commitWatermark < logIndex := by
        rw [framed]
        exact watermark.trans_lt above
      rcases @applyReplicatedBatch_puts _ ticked steps.appended ⟨0,ops⟩ puts logIndex newer with
        ⟨⟨some,unwritten⟩,err,applied⟩ | ⟨written,last,applied,moved⟩
      · simp only [applied] at unfolded
        rw [unfolded,framed]
        have some : data.records ≠ [] := fun none => some (blank.mpr none)
        refine .inl ⟨⟨err,rfl⟩,fun installable => ?_,kept (.inr ⟨some,unwritten⟩)⟩
        exact installable.appended.elim some unwritten
      · simp only [applied] at unfolded
        have written : data.records = [] ∨ steps.appended = .ok () := written.imp blank.mp id
        rw [unfolded]
        refine .inr ⟨?_,?_,?_⟩
        · intro same
          have same : last.storage = e.storage := same
          rw [same] at moved
          exact above.ne moved
        · rintro (stops | ⟨-,-,⟨p,inside,unnamed⟩ | ⟨some,unwritten⟩⟩)
          · exact never stops
          · exact unnamed (isNamed p inside)
          · exact written.elim some unwritten
        · cases analyzed : steps.analyzed with
          | error err => exact .inr ⟨⟨err,rfl⟩,fun installable => by cases analyzed.symm.trans installable.analyzed⟩
          | ok done => exact .inl ⟨rfl,all,isNamed,written,analyzed⟩
  · simp only [Nat.zero_add] at refused before same
    simp only [installed] at unfolded
    rw [unfolded]
    refine .inl ⟨⟨err,rfl⟩,fun installable => refused (installable.schemas k schema found),?_⟩
    rw [same.1,same.2]
    constructor
    · exact fun kept => .inl ⟨k,schema,found,refused,before,kept⟩
    · rintro (⟨k',schema',found',refused',before',kept⟩ | ⟨all,-⟩)
      · obtain rfl : k = k' := by
          rcases Nat.lt_trichotomy k k' with below | same | above
          · exact absurd (before' k below schema found) refused
          · exact same
          · exact absurd (before k' above schema' found') refused'
        obtain rfl : schema = schema' := Option.some.inj (found.symm.trans found')
        exact kept
      · exact absurd (all k schema found) refused

def IdsDerived (e : Engine) : Prop :=
  ∀ c i r, e.storage.get c i = some r →
    ∃ schema, e.storage.schemas[c]? = some schema ∧ ∀ clock, recordIdFor schema r.fields clock = .ok i

structure SameState (e leader : Engine) : Prop where
  schemas : e.storage.schemas = leader.storage.schemas
  live : ∀ c i, (e.storage.get c i).map (·.fields) = (leader.storage.get c i).map (·.fields)

structure Retained (e leader : Engine) : Prop where
  collections : ∀ c : String, (e.storage.schemas[c]?).isSome → (leader.storage.schemas[c]?).isSome
  records : ∀ c i, (e.storage.get c i).isSome → (leader.storage.get c i).isSome

theorem declared_captured [Ranked] (keyed : leader.Keyed) (captured : leader.capture elapsed = .ok data)
    (held : ExtTreeMap String CollectionSchema compare) (c : String) :
    (declared data.schemas held)[c]? = leader.storage.schemas[c]?.or held[c]? := by
  rw [(capture_ok captured).1]
  exact keyed.declared_listed (fun _ => Iff.rfl) held c

theorem lastWrite_captured [Ranked] (keyed : leader.Keyed) (derived : leader.IdsDerived)
    (captured : leader.capture elapsed = .ok data) {schemas : ExtTreeMap String CollectionSchema compare}
    (agree : ∀ (c : String) schema, leader.storage.schemas[c]? = some schema → schemas[c]? = some schema)
    {ops : List LogOp} (upserts : UpsertsAll schemas data.records ops) (c : String) (i : RecordId) :
    (lastWrite ops c i).map (Option.map (·.fields)) = (leader.storage.get c i).map (fun r => some r.fields) := by
  have source (op : LogOp) (inside : op ∈ ops) (hit : op.targets c i = true) :
      ∃ r, leader.storage.get c i = some r ∧ op.value.map (·.fields) = some r.fields := by
    obtain ⟨⟨c',fields⟩,among,schema,clock,id,version,declared,given,rfl⟩ := upserts.only op inside
    obtain ⟨rfl,rfl⟩ : c' = c ∧ id = i := by simpa [LogOp.targets,LogOp.collection,LogOp.id] using hit
    obtain ⟨-,i',r,isLive,rfl⟩ := (keyed.mem_capture captured c' fields).mp among
    obtain ⟨schema',declared',ids⟩ := derived c' i' r isLive
    obtain rfl : schema = schema' := Option.some.inj (declared.symm.trans (agree c' schema' declared'))
    obtain rfl : id = i' := Except.ok.inj (given.symm.trans (ids clock))
    exact ⟨r,isLive,rfl⟩
  cases written : ops.reverse.find? (·.targets c i) with
  | some op =>
    obtain ⟨r,isLive,fields⟩ := source op (List.mem_reverse.mp (List.mem_of_find?_eq_some written))
      (by simpa using List.find?_some written)
    simp [lastWrite,written,isLive,fields]
  | none =>
    cases isLive : leader.storage.get c i with
    | none => simp [lastWrite,written]
    | some r =>
      obtain ⟨schema,declared,ids⟩ := derived c i r isLive
      have listed := (keyed.mem_capture captured c r.fields).mpr ⟨by rw [declared]; rfl,i,r,isLive,rfl⟩
      obtain ⟨op,inside,schema',clock,id,version,declared',given,rfl⟩ := upserts.each _ listed
      obtain rfl : schema' = schema := Option.some.inj (declared'.symm.trans (agree c schema declared))
      obtain rfl : id = i := Except.ok.inj (given.symm.trans (ids clock))
      have missed := List.find?_eq_none.mp written _ (List.mem_reverse.mpr inside)
      simp [LogOp.targets,LogOp.collection,LogOp.id] at missed

/-- An install leaves the state of the leader exactly where the leader still has all that the follower had. -/
theorem installSnapshot_sameState_iff [Ranked] (keyed : leader.Keyed) (derived : leader.IdsDerived)
    (captured : leader.capture elapsed = .ok data) {logIndex : Nat} (ok : e.storage.WellFormed)
    (above : e.storage.commitWatermark < logIndex)
    (done : e.installSnapshot steps data logIndex = (e',.ok ())) : SameState e' leader ↔ Retained e leader := by
  obtain ⟨catalog,ops,upserts,live⟩ := installSnapshot_done ok above done
  have schemas (c : String) : e'.storage.schemas[c]? = leader.storage.schemas[c]?.or e.storage.schemas[c]? := by
    rw [catalog,declared_captured keyed captured]
  have written := lastWrite_captured keyed derived captured (fun c schema found => by rw [schemas,found]; rfl) upserts
  have shown (c : String) (i : RecordId) : (e'.storage.get c i).map (·.fields) =
      ((leader.storage.get c i).map (·.fields)).or ((e.storage.get c i).map (·.fields)) := by
    have last := written c i
    rw [live]
    cases isLive : leader.storage.get c i with
    | none =>
      rw [isLive,Option.map_none,Option.map_eq_none_iff] at last
      rw [last]
      rfl
    | some r =>
      rw [isLive] at last
      obtain ⟨value,isLast,fields⟩ := Option.map_eq_some_iff.mp last
      rw [isLast,Option.getD_some,fields]
      rfl
  constructor
  · intro same
    refine ⟨?_,?_⟩
    · intro c
      exact or_eq_left_iff.mp ((schemas c).symm.trans (by rw [same.schemas]))
    · intro c i there
      simpa using or_eq_left_iff.mp ((shown c i).symm.trans (same.live c i)) (by simpa using there)
  · intro retained
    refine ⟨?_,?_⟩
    · apply ExtTreeMap.ext_getElem?
      intro c
      rw [schemas]
      exact or_eq_left_iff.mpr (retained.collections c)
    · intro c i
      rw [shown]
      exact or_eq_left_iff.mpr (by simpa using retained.records c i)

end

end Engine

end AuraDb
