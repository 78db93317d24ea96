import AuraDb.Engine.Cluster
import AuraDb.Engine.Install
import AuraDb.Engine.References

/-! Building an engine again from its schemas and records: these are upserted one by one, and come back where
every one would be accepted again and comes after the records it links to. -/
namespace AuraDb
open Library Std CollectionIndexes Change
variable {schema : CollectionSchema}

namespace System
variable [Host] {s s₀ : System} {shown : List SchemaShown}

def Catalogued (s : System) : Prop :=
  ∀ (c : String) schema, s.engine.storage.schemas[c]? = some schema → schema.name = c ∧ schema.validateDefinition = .ok ()

theorem Catalogued.step (catalogued : Catalogued s) (tracked : Tracked s) {a : SchemaAct} {s' : System}
    {now : List SchemaShown} (taken : schemaStep s a = some (s',now)) : Catalogued s' := by
  cases a with
  | act a =>
    obtain ⟨p,stepped,same⟩ := Option.map_eq_some_iff.mp taken
    cases same
    unfold Catalogued
    rw [(step_stepped tracked stepped).stored.schemas]
    exact catalogued
  | create saved schema =>
    cases taken
    cases valid : schema.validateDefinition with
    | error err =>
      have same : (s.engine.createSchema saved schema).1 = s.engine := by simp [Engine.createSchema,valid]
      rw [same]
      exact catalogued
    | ok u =>
      intro c schema' found
      rw [Engine.catalog_createSchema saved s.engine valid,TreeMap.getElem?_insert_eq] at found
      split at found
      · obtain rfl := Option.some.inj found
        exact ⟨by assumption,valid⟩
      · exact catalogued c schema' found
  | drop appended saved name =>
    cases taken
    have storage := (Engine.dropSchema_frame appended saved name s.engine).2
    rcases s.engine.storage.dropSchema_storage appended saved name with same | ⟨_,mid,written,forgot⟩
    · unfold Catalogued
      rw [storage,same]
      exact catalogued
    · have kept : mid.schemas = s.engine.storage.schemas := by rcases written with rfl | rfl <;> rfl
      intro c schema found
      rw [storage,forgot] at found
      simp only [Storage.forgotten,kept] at found
      exact catalogued c schema (TreeMap.of_getElem?_erase found).2

theorem Started.catalogued (started : Started s₀) (catalogued : Catalogued s₀) (run : SchemaRuns s₀ shown s) :
    s.engine.storage.WellFormed ∧ Catalogued s := by
  obtain ⟨kept,last⟩ := run.invariant (fun shown t => Remembered shown t ∧ Catalogued t)
    ⟨started.remembered (.start s₀),catalogued⟩
    (fun _ _ _ _ _ both _ taken => ⟨both.1.step taken,both.2.step both.1.tracked taken⟩)
  exact ⟨kept.tracked.wellFormed,last⟩

theorem fresh_catalogued {schema : CollectionSchema} (valid : schema.validateDefinition = .ok ()) (options : EngineOptions) :
    Catalogued (fresh schema options) := by
  intro c schema' found
  simp only [fresh,TreeMap.getElem?_insert_eq] at found
  split at found
  · obtain rfl := Option.some.inj found
    exact ⟨by assumption,valid⟩
  · simp at found

end System

namespace Engine
section
variable {e e' f : Engine} {r : Record} {schema : CollectionSchema} {fields : Document} {c : String} {id : RecordId}
  {schemas : List CollectionSchema}

def recordsOf (e : Engine) (schemas : List CollectionSchema) : List Record :=
  schemas.flatMap (fun schema => e.storage.scan schema.name)

structure SameRecords (f e : Engine) : Prop where
  schemas : f.storage.schemas = e.storage.schemas
  records : ∀ c, ((f.storage.scan c).map (·.fields)).Perm ((e.storage.scan c).map (·.fields))

theorem mem_recordsOf (ok : e.storage.WellFormed)
    (inside : r ∈ e.recordsOf schemas) : e.storage.get r.collection r.id = some r := by
  obtain ⟨schema,-,listed⟩ := List.mem_flatMap.mp inside
  have isLive := (ok.mem_scan_iff schema.name r).mp listed
  rwa [(ok.get_keyed _ _ r isLive).1]

theorem recordsOf_nodup (ok : e.storage.WellFormed)
    (distinct : (schemas.map (·.name)).Nodup) : (e.recordsOf schemas).Nodup := by
  refine List.nodup_flatMap.mpr ⟨fun schema _ => (ok.scan_ids schema.name).of_map,?_⟩
  refine (List.pairwise_map.mp distinct).imp ?_
  intro s s' differ r inside inside'
  have left := (ok.get_keyed _ _ r ((ok.mem_scan_iff s.name r).mp inside)).1
  have right := (ok.get_keyed _ _ r ((ok.mem_scan_iff s'.name r).mp inside')).1
  exact differ (left.symm.trans right)

theorem Keyed.listSchemas_names (keyed : e.Keyed) : (e.listSchemas.map (·.name)).Nodup := by
  have names : e.listSchemas.map (·.name) = e.storage.schemas.toList.map Prod.fst := by
    rw [listSchemas,List.map_map]
    refine List.map_congr_left (fun p inside => ?_)
    exact keyed.schemas p.1 p.2 (ExtTreeMap.mem_toList_iff_getElem?_eq_some.mp inside)
  rw [names]
  exact TreeMap.keys_nodup e.storage.schemas

/-- What opening a directory finds of the storage written to it: the same schemas and latest versions. -/
structure ReadsBack (storage found : Storage) : Prop where
  wellFormed : found.WellFormed
  schemas : found.schemas = storage.schemas
  live : ∀ c i, found.get c i = storage.get c i

theorem SameRecords.trans {g : Engine} (first : SameRecords g f) (second : SameRecords f e) : SameRecords g e :=
  ⟨first.schemas.trans second.schemas,fun c => (first.records c).trans (second.records c)⟩

theorem ReadsBack.sameRecords (reads : ReadsBack e.storage f.storage) : SameRecords f e :=
  ⟨reads.schemas,fun c => by rw [Storage.scan_congr _ _ c (reads.live c)]⟩

variable [Host]

def upsertAll (appended : Nat → Result Unit) : Nat → List (String × Document) → Engine → Engine × Outcome Unit
  | _, [], e => (e,.ok ())
  | n, (collection,fields)::rest, e => match e.applyMutation (appended n) (.upsert collection fields) with
    | (e,.ok _) => upsertAll appended (n + 1) rest e
    | (e,.err err) => (e,.err err)
    | (e,.panic m) => (e,.panic m)

def shownAs (r : Record) : String × Document := (r.collection,r.fields)

/-- Its collection would accept the record again. -/
structure Acceptable (e : Engine) (schema : CollectionSchema) (r : Record) : Prop where
  checks : DocOk e schema r.fields
  keys : (pendingKeys schema r).Nodup

def ResolvesIn (e : Engine) (records : List Record) (target : String) (key : Value) : Prop :=
  ∃ schema, e.storage.schemas[target]? = some schema ∧ schema.primaryKey.isSome ∧
    ∃ q ∈ records, q.collection = target ∧ recordIdFor schema q.fields 0 = .ok (deriveId target key)

/-- No two records share a unique value or the id of their primary keys, each would be accepted again, and each
comes after those that it links to. -/
structure Restorable (e : Engine) (schemas : List CollectionSchema) : Prop where
  unique : e.UniqueKeys
  accepted : ∀ c i r, e.storage.get c i = some r →
    ∃ schema, e.storage.schemas[c]? = some schema ∧ e.Acceptable schema r
  apart : ∀ c r r' schema, r ∈ e.storage.scan c → r' ∈ e.storage.scan c → e.storage.schemas[c]? = some schema →
    schema.primaryKey.isSome → recordIdFor schema r.fields 0 = recordIdFor schema r'.fields 0 → r.id = r'.id
  ordered : ∀ before r after, e.recordsOf schemas = before ++ r::after →
    ∀ schema, e.storage.schemas[r.collection]? = some schema → ∀ rel ∈ schema.relationships,
      ∀ key ∈ rel.linkKeys (r.fields.get rel.name), e.ResolvesIn before rel.target key

structure Added (e e' : Engine) (c : String) (id : RecordId) (fields : Document) : Prop where
  sound : Sound e'
  schemas : e'.storage.schemas = e.storage.schemas
  clock : e.clock < e'.clock
  live : ∀ c' i, e'.storage.get c' i =
    if c' = c ∧ i = id then some ⟨id,c,fields,1,0⟩ else e.storage.get c' i

theorem Effect.put_one {txnId : TxnId} (effect : Effect e e' txnId [put r]) (sound : Sound e)
    (checked : Checked e (put r)) :
    Sound e' ∧ ∀ c i, e'.storage.get c i = if c = r.collection ∧ i = r.id then some r else e.storage.get c i := by
  have each : ∀ ch ∈ [put r], Checked e ch := by simpa using checked
  have writes (c : String) : writesTo [put r] c = if c = r.collection then [(r.id,some r)] else [] := by
    by_cases own : c = r.collection
    · simp [writesTo,put,own]
    · simp [writesTo,put,own,Ne.symm own]
  have apart : Apart e [put r] := by
    intro c schema _
    rw [writes]
    split <;> simp
  refine ⟨effect.sound sound each (by simp) (effect.covered sound.covered each apart).uniqueKeys,?_⟩
  intro c i
  rw [effect.get sound.storage,writes,Live.rewrite_apply]
  by_cases own : c = r.collection
  · by_cases same : i = r.id
    · simp [own,same]
    · simp [own,same,Ne.symm same]
  · simp [own]

theorem prepareWrites_one_clock (e : Engine) (valid : schema.validateRecord fields = .ok ()) (c : String)
    (mode : WriteMode) : e.clock < (e.prepareWrites schema c mode 0 [fields] e.clock []).1 := by
  simp only [prepareWrites,valid]
  split <;> exact Nat.lt_succ_self _

theorem upsert_new (sound : Sound e) (declared : e.storage.schemas[c]? = some schema) (checks : DocOk e schema fields)
    (named : recordIdFor schema fields e.clock = .ok id) (absent : e.storage.get c id = none)
    (keys : (pendingKeys schema ⟨id,c,fields,1,0⟩).Nodup)
    (apart : ∀ f, schema.isUniqueField f = true → ∀ k, fieldKey f ⟨id,c,fields,1,0⟩ = some k →
      ∀ j r, e.storage.get c j = some r → fieldKey f r ≠ some k) :
    ∃ e' result, e.applyMutation (.ok ()) (.upsert c fields) = (e',.ok result) ∧ Added e e' c id fields := by
  let record : Record := ⟨id,c,fields,1,0⟩
  obtain ⟨idx,indexed,shape,agrees⟩ := sound.indexed c schema declared
  have free : idx.checkUnique record none = .ok () := by
    refine (checkUnique_ok_iff agrees ((fromSchema_guarded schema).congr shape) record none (by simp)).mpr ?_
    intro f m mapped k key j r isLive same
    have unique : schema.isUniqueField f = true := by
      rw [← fromSchema_uniqueMaps,← shape.unique f,mapped]
      rfl
    exact absurd same (apart f unique k key j r isLive)
  have gathered : (e.prepareWrites schema c .upsert 0 [fields] e.clock []).2 = .ok [(none,record)] := by
    refine prepareWrites_ok_iff.mpr ⟨⟨rfl,named,trivial⟩,by simpa using checks,?_,by simp,?_,?_,by simp⟩
    · simp [record,absent,writtenRecord]
    · simpa using ⟨idx,indexed,free⟩
    · simpa using keys
  let ticked : Engine := { e with clock := (e.prepareWrites schema c .upsert 0 [fields] e.clock []).1 }
  obtain ⟨e',committed⟩ : ∃ e', ticked.commitTo (.ok ()) c ⟨0,[.put 0 record]⟩ [(none,some record)] = (e',.ok ()) := by
    simp only [commitTo,Storage.commitBatch,List.isEmpty_cons,Bool.false_eq_true,if_false,ticked,indexed]
    exact ⟨_,rfl⟩
  have ends : Ends ticked 0 (· = [put record]) (e.indexes[c]? = none)
      (ticked.commitTo (.ok ()) c ⟨0,[.put 0 record]⟩ [(none,some record)]) :=
    commitTo_ends ticked (.ok ()) c 0 [put record] (by simp [put,record]) _ _ rfl
      (by simp [update,put,record,ticked,absent]) rfl (fun missing => missing)
  rw [committed] at ends
  refine ⟨e'.refreshStatsRowCount c,{ inserted := 1, updated := 0, ids := [id] },?_,?_⟩
  · simp only [applyMutation,mutate,writeRecords,(schemaFor_ok_iff e c schema).mpr declared,gathered,List.map_cons,
      List.map_nil]
    rw [show commitTo _ _ _ _ _ = (e',.ok ()) from committed]
    rfl
  · generalize result : (Outcome.ok () : Outcome Unit) = done at ends
    cases ends with
    | refused _ err effect frame | panicked _ m why => cases result
    | committed _ u changes effect frame how =>
      obtain rfl : changes = [put record] := how
      have checked : Checked ticked (put record) := by
        intro r isNew idx' held
        obtain rfl := Option.some.inj isNew
        obtain rfl : idx = idx' := Option.some.inj (indexed.symm.trans held)
        simpa [ticked,put,record,absent] using free
      obtain ⟨after,live⟩ := effect.put_one (sound.congr sound.storage rfl (fun _ => rfl) (fun _ => rfl)) checked
      exact ⟨after.congr after.storage rfl (fun _ => rfl) (fun _ => rfl),effect.schemas,
        Nat.lt_of_lt_of_le (prepareWrites_one_clock e checks.1 c .upsert) frame.clock,live⟩

theorem Added.scan (added : Added e e' c id fields) (ok : e.storage.WellFormed) (absent : e.storage.get c id = none) :
    (e'.storage.scan c).Perm (⟨id,c,fields,1,0⟩::e.storage.scan c) := by
  have fresh : (⟨id,c,fields,1,0⟩ : Record) ∉ e.storage.scan c := by
    intro inside
    have isLive : e.storage.get c id = some _ := (ok.mem_scan_iff c _).mp inside
    rw [absent] at isLive
    cases isLive
  refine (List.perm_ext_iff_of_nodup (added.sound.storage.scan_ids c).of_map
    (List.nodup_cons.mpr ⟨fresh,(ok.scan_ids c).of_map⟩)).mpr ?_
  intro r
  rw [added.sound.storage.mem_scan_iff,List.mem_cons,ok.mem_scan_iff,added.live]
  by_cases same : r.id = id
  · simp [same,absent,eq_comm]
  · have other : r ≠ ⟨id,c,fields,1,0⟩ := fun equal => same (equal ▸ rfl)
    simp [same,other]

theorem Added.scan_elsewhere (added : Added e e' c id fields) {c' : String}
    (other : c' ≠ c) : e'.storage.scan c' = e.storage.scan c' :=
  Storage.scan_congr _ _ c' (fun i => by rw [added.live,if_neg (fun same => other same.1)])

theorem referentialCheck_of_resolves (passed : e.referentialCheck schema fields = .ok ())
    (resolves : ∀ rel ∈ schema.relationships, ∀ key ∈ rel.linkKeys (fields.get rel.name),
      (e'.resolveLink rel.target key).isSome) : e'.referentialCheck schema fields = .ok () := by
  refine (checkAll_ok_iff _ _).mpr (fun rel declared => ?_)
  have shape := (checkAll_ok_iff _ _).mp passed rel declared
  have found := resolves rel declared
  have linked (key : Value) (held : key ∈ rel.linkKeys (fields.get rel.name)) : e'.linkCheck rel key = .ok () := by
    rw [linkCheck,if_neg (by simp [Option.isSome_iff_ne_none.mp (found key held)])]
  cases value : fields.get rel.name with
  | none => rfl
  | some v =>
    rw [value] at linked
    simp only [value] at shape
    cases many : rel.cardinality with
    | toOne => cases v <;> first | rfl | exact linked _ (by simp [Relationship.linkKeys,many])
    | toMany =>
      cases v with
      | null => rfl
      | array items => exact (checkAll_ok_iff _ _).mpr (fun key held => linked key (by simpa [Relationship.linkKeys,many]))
      | _ => simp [many] at shape

/-- An engine into which these records have been upserted, under the ids of their primary keys or ids of its own
counter. -/
structure Replayed (e : Engine) (done : List Record) (f : Engine) : Prop where
  sound : Sound f
  schemas : f.storage.schemas = e.storage.schemas
  records : ∀ c, ((f.storage.scan c).map (·.fields)).Perm ((done.filter (·.collection = c)).map (·.fields))
  kept : ∀ r ∈ done, ∀ schema, e.storage.schemas[r.collection]? = some schema → schema.primaryKey.isSome →
    ∀ id, recordIdFor schema r.fields 0 = .ok id → (f.storage.get r.collection id).isSome
  source : ∀ c i r', f.storage.get c i = some r' → ∃ r ∈ done, r.collection = c ∧ r'.fields = r.fields ∧
    ∀ schema, e.storage.schemas[c]? = some schema →
      (schema.primaryKey.isSome → recordIdFor schema r.fields 0 = .ok i) ∧ (schema.primaryKey = none → i < f.clock)

section
variable {e f : Engine} {schemas : List CollectionSchema} {before after : List Record} {r : Record}
section
variable (ok : e.storage.WellFormed) (distinct : (schemas.map (·.name)).Nodup)
include ok distinct

omit [Host] in
theorem recordsOf_before (split : e.recordsOf schemas = before ++ r::after) {q : Record} (earlier : q ∈ before)
    (collection : q.collection = r.collection) : q.id ≠ r.id := by
  intro id
  have isLive := mem_recordsOf ok (r := r) (by rw [split]; simp)
  have same : q = r := by
    have isLive' := mem_recordsOf ok (r := q) (by rw [split]; simp [earlier])
    rw [collection,id,isLive] at isLive'
    exact (Option.some.inj isLive').symm
  have apart := recordsOf_nodup ok distinct
  rw [split] at apart
  exact (List.nodup_append'.mp apart).2.2 (same ▸ earlier) List.mem_cons_self

theorem Replayed.accepts (restorable : e.Restorable schemas) (split : e.recordsOf schemas = before ++ r::after)
    (replayed : Replayed e before f) (declared : e.storage.schemas[r.collection]? = some schema) {id : RecordId}
    (named : recordIdFor schema r.fields f.clock = .ok id) : f.storage.get r.collection id = none ∧
      ∃ f' result, f.applyMutation (.ok ()) (.upsert r.collection r.fields) = (f',.ok result) ∧
        Added f f' r.collection id r.fields := by
  have isLive := mem_recordsOf ok (r := r) (by rw [split]; simp)
  obtain ⟨schema',declared',accepted⟩ := restorable.accepted _ _ r isLive
  obtain rfl : schema = schema' := Option.some.inj (declared.symm.trans declared')
  have absent : f.storage.get r.collection id = none := by
    refine Option.eq_none_iff_forall_ne_some.mpr (fun r' taken => ?_)
    obtain ⟨q,earlier,collection,-,ids⟩ := replayed.source _ _ r' taken
    obtain ⟨derived,below⟩ := ids schema declared
    cases keyed : schema.primaryKey with
    | none =>
      simp only [recordIdFor,keyed,Except.ok.injEq] at named
      exact absurd (below keyed) (by simp [named])
    | some pk =>
      have isKeyed : schema.primaryKey.isSome := by simp [keyed]
      rw [recordIdFor_clock isKeyed] at named
      have isLive' := mem_recordsOf ok (r := q) (by rw [split]; simp [earlier])
      refine recordsOf_before ok distinct split earlier collection (restorable.apart r.collection q r schema ?_ ?_
        declared isKeyed ((derived isKeyed).trans named.symm))
      · exact (ok.mem_scan_iff _ q).mpr (collection ▸ isLive')
      · exact (ok.mem_scan_iff _ r).mpr isLive
  refine ⟨absent,upsert_new replayed.sound (by rw [replayed.schemas,declared]) ⟨accepted.checks.1,?_⟩ named absent ?_ ?_⟩
  · refine referentialCheck_of_resolves accepted.checks.2 (fun rel related key held => ?_)
    obtain ⟨target,known,isKeyed,q,earlier,collection,id⟩ :=
      restorable.ordered before r after split schema declared rel related key held
    have there := replayed.kept q earlier target (by rw [collection,known]) isKeyed _ id
    rwa [collection] at there
  · exact accepted.keys
  · intro field unique k key j r' taken key'
    obtain ⟨q,earlier,collection,fields,-⟩ := replayed.source _ _ r' taken
    have isLive' := mem_recordsOf ok (r := q) (by rw [split]; simp [earlier])
    rw [collection] at isLive'
    have same : fieldKey field q = some k := by rw [← key',fieldKey,fieldKey,fields]
    exact recordsOf_before ok distinct split earlier collection
      (restorable.unique _ schema declared field unique q.id r.id q r k isLive' isLive same key)

end

theorem Replayed.added (ok : f.storage.WellFormed) (replayed : Replayed e before f) {f' : Engine}
    (declared : e.storage.schemas[r.collection]? = some schema) {id : RecordId}
    (named : recordIdFor schema r.fields f.clock = .ok id) (absent : f.storage.get r.collection id = none)
    (added : Added f f' r.collection id r.fields) : Replayed e (before ++ [r]) f' := by
  refine ⟨added.sound,added.schemas.trans replayed.schemas,?_,?_,?_⟩
  · intro c
    by_cases here : c = r.collection
    · subst here
      refine ((added.scan ok absent).map _).trans ?_
      simpa using ((replayed.records r.collection).cons r.fields).trans (List.perm_append_singleton _ _).symm
    · rw [added.scan_elsewhere here]
      simpa [Ne.symm here] using replayed.records c
  · intro q inside target known keyed id' named'
    rw [added.live]
    split
    · rfl
    rename_i other
    rcases List.mem_append.mp inside with earlier | last
    · exact replayed.kept q earlier target known keyed id' named'
    · obtain rfl := List.mem_singleton.mp last
      obtain rfl : schema = target := Option.some.inj (declared.symm.trans known)
      rw [recordIdFor_clock keyed,named'] at named
      exact absurd ⟨rfl,Except.ok.inj named⟩ other
  · intro c i r' isLive
    rw [added.live] at isLive
    split at isLive
    · rename_i here
      obtain ⟨rfl,rfl⟩ := here
      obtain rfl := Option.some.inj isLive
      refine ⟨r,by simp,rfl,rfl,?_⟩
      intro schema' known
      obtain rfl : schema = schema' := Option.some.inj (declared.symm.trans known)
      refine ⟨fun keyed => recordIdFor_clock keyed r.fields f.clock ▸ named,fun none => ?_⟩
      simp only [recordIdFor,none,Except.ok.injEq] at named
      exact named ▸ added.clock
    · obtain ⟨q,earlier,collection,fields,ids⟩ := replayed.source c i r' isLive
      refine ⟨q,by simp [earlier],collection,fields,fun target known => ⟨(ids target known).1,?_⟩⟩
      exact fun none => Nat.lt_trans ((ids target known).2 none) added.clock

section
variable (ok : e.storage.WellFormed) (distinct : (schemas.map (·.name)).Nodup)
  (restorable : e.Restorable schemas)
include ok distinct restorable

theorem Replayed.step (split : e.recordsOf schemas = before ++ r::after) (replayed : Replayed e before f) :
    ∃ f' result, f.applyMutation (.ok ()) (.upsert r.collection r.fields) = (f',.ok result) ∧
      Replayed e (before ++ [r]) f' := by
  have isLive := mem_recordsOf ok (r := r) (by rw [split]; simp)
  obtain ⟨schema,declared,accepted⟩ := restorable.accepted _ _ r isLive
  obtain ⟨id,named⟩ := recordIdFor_of_valid accepted.checks.1 f.clock
  obtain ⟨absent,f',result,done,added⟩ := replayed.accepts ok distinct restorable split declared named
  exact ⟨f',result,done,replayed.added replayed.sound.storage declared named absent added⟩

theorem upsertAll_replayed {appended : Nat → Result Unit} (clean : ∀ n, appended n = .ok ())
    (split : e.recordsOf schemas = before ++ after) (replayed : Replayed e before f) (n : Nat) :
    ∃ f', f.upsertAll appended n (after.map shownAs) = (f',.ok ()) ∧ Replayed e (e.recordsOf schemas) f' := by
  induction after generalizing before f n with
  | nil =>
    rw [List.append_nil] at split
    exact ⟨f,rfl,split ▸ replayed⟩
  | cons r rest ih =>
    obtain ⟨mid,result,done,next⟩ := replayed.step ok distinct restorable split
    obtain ⟨f',others,last⟩ := ih (by rw [split]; simp) next (n + 1)
    refine ⟨f',?_,last⟩
    simp only [List.map_cons,shownAs,upsertAll,clean n,done]
    exact others

end

end

theorem captureAll_recordsOf [Ranked] {e : Engine} (ok : e.storage.WellFormed)
    (indexed : ∀ (c : String) schema, e.storage.schemas[c]? = some schema → (e.indexes[c]?).isSome)
    (elapsed : Stopwatch) {schemas : List CollectionSchema}
    (declared : ∀ schema ∈ schemas, e.storage.schemas[schema.name]? = some schema) :
    e.captureAll elapsed schemas = .ok ((e.recordsOf schemas).map shownAs) := by
  induction schemas with
  | nil => rfl
  | cons schema rest ih =>
    have known := declared schema List.mem_cons_self
    obtain ⟨idx,held⟩ := Option.isSome_iff_exists.mp (indexed schema.name schema known)
    have schemaOk : e.committedView.requireSchema schema.name = .ok schema := by
      simp [Source.requireSchema,committedView,Storage.getSchema,known]
    have indexesOk : e.committedView.requireIndexes schema.name = .ok idx := by
      simp [Source.requireIndexes,committedView,held]
    obtain ⟨rows,found,fields⟩ := find_new schemaOk indexesOk (fun r => (ok.mem_scan_iff schema.name r).mp) elapsed
    have shown : rows.map (fun row => (schema.name,row.fields)) = (e.storage.scan schema.name).map shownAs := by
      have paired := congrArg (List.map (fun fields => (schema.name,fields))) fields
      rw [List.map_map,List.map_map] at paired
      refine paired.trans (List.map_congr_left (fun r inside => ?_))
      have own := (ok.get_keyed _ _ r ((ok.mem_scan_iff schema.name r).mp inside)).1
      simp [shownAs,own]
    rw [captureAll,bind_of_ok found,bind_of_ok (ih (fun other inside => declared other (List.mem_cons_of_mem _ inside))),
      shown,← List.map_append]
    rfl

structure Empty (f : Engine) : Prop where
  sound : Sound f
  schemas : f.storage.schemas = ∅
  records : ∀ c i, f.storage.get c i = none

theorem openWith_empty (options : EngineOptions) (stats : PlannerStats) :
    ∃ f, openWith ⟨∅,∅,0,0⟩ options stats = .ok f ∧ Empty f :=
  ⟨_,rfl,openWith_sound Storage.wellFormed_empty options stats (by simp) rfl,rfl,fun _ _ => rfl⟩

theorem fits_unwritten (none : ∀ c i, e.storage.get c i = none) (schema : CollectionSchema) : e.Fits schema := by
  intro f _ i j r r' k isLive
  rw [none] at isLive
  cases isLive

theorem installSchemas_unwritten {saved : Nat → Result Unit} (clean : ∀ n, saved n = .ok ())
    (valid : ∀ schema ∈ schemas, schema.validateDefinition = .ok ()) (n : Nat) (sound : Sound f)
    (unwritten : ∀ c i, f.storage.get c i = none) : ∃ f', f.installSchemas saved n schemas = (f',.ok ()) ∧ Sound f' ∧
      f'.storage.schemas = declared schemas f.storage.schemas ∧ ∀ c i, f'.storage.get c i = none := by
  induction schemas generalizing n f with
  | nil => exact ⟨f,rfl,sound,rfl,unwritten⟩
  | cons schema rest ih =>
    have isValid := valid schema List.mem_cons_self
    have made := createSchema_ok sound.storage isValid (fits_unwritten unwritten schema)
    have kept := createSchema_sound sound (fun _ => fits_unwritten unwritten schema)
    have live := (sameData_createSchema (.ok ()) schema f).live
    have catalog := catalog_createSchema (.ok ()) f isValid
    cases done : f.createSchema (.ok ()) schema with
    | mk mid result =>
      rw [done] at made kept live catalog
      cases made
      obtain ⟨f',others,sound',schemas,unwritten'⟩ := ih (fun other inside => valid other (List.mem_cons_of_mem _ inside))
        (n + 1) kept (fun c i => (congrFun (live c) i).trans (unwritten c i))
      refine ⟨f',?_,sound',?_,unwritten'⟩
      · simp only [installSchemas,clean n,done]
        exact others
      · rw [schemas,catalog]
        rfl

theorem Replayed.start (sound : Sound f) (schemas : f.storage.schemas = e.storage.schemas)
    (none : ∀ c i, f.storage.get c i = none) : Replayed e [] f := by
  refine ⟨sound,schemas,?_,by simp,?_⟩
  · intro c
    have unread : f.storage.scan c = [] := by
      refine List.eq_nil_iff_forall_not_mem.mpr (fun r inside => ?_)
      rw [sound.storage.mem_scan_iff,none] at inside
      cases inside
    simp [unread]
  · intro c i r' isLive
    rw [none] at isLive
    cases isLive

theorem Restorable.recordsOf_perm (keyed : e.Keyed) (listed : schemas.Perm e.listSchemas)
    (distinct : (schemas.map (·.name)).Nodup) (restorable : e.Restorable schemas)
    (c : String) : ((e.recordsOf schemas).filter (·.collection = c)).Perm (e.storage.scan c) := by
  refine (List.perm_ext_iff_of_nodup ((recordsOf_nodup keyed.records distinct).filter _)
    (keyed.records.scan_ids c).of_map).mpr (fun r => ?_)
  rw [List.mem_filter,decide_eq_true_iff]
  constructor
  · rintro ⟨inside,rfl⟩
    exact (keyed.records.mem_scan_iff _ r).mpr (mem_recordsOf keyed.records inside)
  · intro inside
    have isLive := (keyed.records.mem_scan_iff c r).mp inside
    obtain ⟨schema,declared,-⟩ := restorable.accepted c r.id r isLive
    have named := keyed.schemas c schema declared
    have member := listed.mem_iff.mpr ((keyed.mem_listSchemas schema).mpr (named ▸ declared))
    exact ⟨List.mem_flatMap.mpr ⟨schema,member,named ▸ inside⟩,(keyed.records.get_keyed c r.id r isLive).1⟩

/-- An engine that is restorable in an order of its collections is built again in that order. -/
theorem Restorable.rebuilds (keyed : e.Keyed) (valid : ∀ schema ∈ e.listSchemas, schema.validateDefinition = .ok ())
    (listed : schemas.Perm e.listSchemas) (restorable : e.Restorable schemas) (empty : Empty f)
    {saved appended : Nat → Result Unit} (saves : ∀ n, saved n = .ok ()) (appends : ∀ n, appended n = .ok ())
    (n m : Nat) : ∃ mid f', f.installSchemas saved n schemas = (mid,.ok ()) ∧
      mid.upsertAll appended m ((e.recordsOf schemas).map shownAs) = (f',.ok ()) ∧ Sound f' ∧ SameRecords f' e := by
  have distinct : (schemas.map (·.name)).Nodup := (listed.map _).nodup_iff.mpr keyed.listSchemas_names
  obtain ⟨mid,installed,sound,catalog,none⟩ := installSchemas_unwritten saves
    (fun schema inside => valid schema (listed.mem_iff.mp inside)) n empty.sound empty.records
  have declares : mid.storage.schemas = e.storage.schemas := by
    apply ExtTreeMap.ext_getElem?
    intro c
    rw [catalog,empty.schemas,keyed.declared_listed (fun schema => listed.mem_iff)]
    simp
  obtain ⟨f',upserted,replayed⟩ := upsertAll_replayed keyed.records distinct restorable appends
    (List.nil_append _).symm (.start sound declares none) m
  refine ⟨mid,f',installed,upserted,replayed.sound,replayed.schemas,?_⟩
  intro c
  exact (replayed.records c).trans ((restorable.recordsOf_perm keyed listed distinct c).map _)

theorem UniqueKeys.reopens (keyed : e.Keyed) (unique : e.UniqueKeys) {found : Storage}
    (reads : ReadsBack e.storage found) (options : EngineOptions) (stats : PlannerStats) :
    ∃ f, openWith found options stats = .ok f ∧ Sound f ∧ f.storage = found := by
  obtain ⟨indexes,rebuilt⟩ := rebuildIndexes_ok reads.wellFormed (found.schemas.toList.map Prod.snd) (by
    intro schema inside
    obtain ⟨⟨c,held⟩,listed,rfl⟩ := List.mem_map.mp inside
    have declared := ExtTreeMap.mem_toList_iff_getElem?_eq_some.mp listed
    rw [reads.schemas] at declared
    have same : found.get held.name = e.storage.get c := by
      rw [keyed.schemas c held declared]
      exact funext (reads.live c)
    rw [same]
    exact unique c held declared)
  have opens : ∃ f, openWith found options stats = .ok f := by
    simp only [openWith,rebuilt]
    exact ⟨_,rfl⟩
  obtain ⟨f,opened⟩ := opens
  refine ⟨f,opened,openWith_sound reads.wellFormed options stats ?_ opened,storage_openWith opened⟩
  intro c schema declared
  rw [reads.schemas] at declared
  exact keyed.schemas c schema declared

instance : Decidable (e.Acceptable schema r) :=
  decidable_of_iff ((schema.validateRecord r.fields = .ok () ∧ e.referentialCheck schema r.fields = .ok ()) ∧
    (pendingKeys schema r).Nodup) ⟨fun both => ⟨both.1,both.2⟩,fun ok => ⟨ok.checks,ok.keys⟩⟩

instance {records : List Record} {target : String} {key : Value} : Decidable (e.ResolvesIn records target key) :=
  inferInstanceAs (Decidable (∃ schema ∈ e.storage.schemas[target]?, schema.primaryKey.isSome ∧ ∃ q ∈ records, _))

/-- A check that an engine can make of its own records before it is dumped. -/
def restorable (e : Engine) (options : EngineOptions) (schemas : List CollectionSchema) : Bool :=
  (openWith e.storage options ∅).isOk && decide (∀ p ∈ e.storage.records.toList, ∀ r ∈ e.storage.scan p.1,
    ∃ schema ∈ e.storage.schemas[p.1]?, e.Acceptable schema r ∧ (schema.primaryKey.isSome → ∀ r' ∈ e.storage.scan p.1,
      recordIdFor schema r.fields 0 = recordIdFor schema r'.fields 0 → r.id = r'.id)) &&
    decide (∀ n < (e.recordsOf schemas).length, ∀ r ∈ (e.recordsOf schemas)[n]?, ∀ schema ∈ e.storage.schemas[r.collection]?, ∀ rel ∈ schema.relationships,
        ∀ key ∈ rel.linkKeys (r.fields.get rel.name), e.ResolvesIn ((e.recordsOf schemas).take n) rel.target key)

theorem restorable_sound {e : Engine} (keyed : e.Keyed) {options : EngineOptions} {schemas : List CollectionSchema}
    (test : e.restorable options schemas = true) : e.Restorable schemas := by
  simp only [restorable,Bool.and_eq_true,decide_eq_true_iff] at test
  obtain ⟨⟨opens,accepted⟩,ordered⟩ := test
  have listed {c : String} {r : Record} (inside : r ∈ e.storage.scan c) :
      ∃ chains, (c,chains) ∈ e.storage.records.toList := by
    obtain ⟨i,isLive⟩ := (e.storage.mem_scan c r).mp inside
    obtain ⟨chains,held,-⟩ := Option.bind_eq_some_iff.mp isLive
    exact ⟨chains,ExtTreeMap.mem_toList_iff_getElem?_eq_some.mpr held⟩
  refine ⟨?_,?_,?_,fun before r after split schema declared rel related key held => ?_⟩
  · cases opened : openWith e.storage options ∅ with
    | error err => simp [opened,Except.isOk,Except.toBool] at opens
    | ok f =>
      have unique := (openWith_sound keyed.records options ∅ keyed.schemas opened).covered.uniqueKeys
      unfold UniqueKeys at unique ⊢
      rwa [storage_openWith opened] at unique
  · intro c i r isLive
    have inside : r ∈ e.storage.scan c := (e.storage.mem_scan c r).mpr ⟨i,isLive⟩
    obtain ⟨chains,held⟩ := listed inside
    obtain ⟨schema,declared,acceptable,-⟩ := accepted (c,chains) held r inside
    exact ⟨schema,declared,acceptable⟩
  · intro c r r' schema inside inside' declared isKeyed
    obtain ⟨chains,held⟩ := listed inside
    obtain ⟨schema',declared',-,apart⟩ := accepted (c,chains) held r inside
    obtain rfl := Option.some.inj (declared.symm.trans declared')
    exact apart isKeyed r' inside'
  · have here := ordered before.length (by simp [split]) r (by simp [split]) schema declared rel related key held
    rwa [split,List.take_left] at here

end

end Engine

end AuraDb
