import AuraDb.Engine.Restore
import AuraDb.Replication.SnapshotInstall

/-! Restoring a snapshot into a directory of its own, through the engine's normal load path: the records are
checked again one by one, in the order of the collections' names. -/
namespace AuraDb.Replication
open Std Library Library.Framing Engine

/-- An error of the replication layer, or that the thread panicked in the engine. -/
inductive RestoreError where
  | snapshot (err : SnapshotError)
  | restoreRefused (reason : String)
  | apply (err : Error)
  | panicked (message : String)
  deriving DecidableEq

structure RestoreOptions where
  force : Bool := false
  expectedClusterId : Option String := none
  allowClusterMismatch : Bool := false

structure RestoreTarget where
  path : String
  nonempty : Bool

/-- How the file steps of a restore went, and what opening the directory in its place finds. -/
structure RestoreSteps where
  saved : Nat → Result Unit
  appended : Nat → Result Unit
  analyzed : Result Unit
  swapped : Except String Unit
  found : Storage → Storage

structure RestoreSteps.Clean (steps : RestoreSteps) : Prop where
  saved : ∀ n, steps.saved n = .ok ()
  appended : ∀ n, steps.appended n = .ok ()
  analyzed : steps.analyzed = .ok ()
  swapped : steps.swapped = .ok ()
  found : ∀ s : Storage, s.WellFormed → ReadsBack s (steps.found s)

namespace SnapshotManifest

def validateForRestore (codec : SnapshotCodec) (opts : RestoreOptions) (m : SnapshotManifest) : Except RestoreError Unit :=
  match m.verifiedPayload codec with
  | .error e => .error (.snapshot e)
  | .ok _ =>
    if m.metadata.storageFormatVersion > formatVersion then .error (.restoreRefused
      ("snapshot was captured from storage format v" ++ toString m.metadata.storageFormatVersion ++
        " but this build supports up to v" ++ toString formatVersion))
    else match opts.expectedClusterId, m.metadata.clusterId with
      | some expected, some found =>
        if expected ≠ found ∧ opts.allowClusterMismatch = false then .error (.restoreRefused
          ("snapshot belongs to cluster " ++ found ++ " but the target is cluster " ++ expected ++
            "; pass an explicit override to restore across clusters"))
        else .ok ()
      | _, _ => .ok ()

section

theorem decodeState_ofData {codec : SnapshotCodec} {data : SnapshotData}
    (readable : codec.state.read (codec.state.write data) = .ok data) (lastIncludedIndex lastIncludedTerm : Nat)
    (clusterId : Option String) :
    ((ofData codec data lastIncludedIndex lastIncludedTerm).withIdentity clusterId).decodeState codec = .ok data := by
  simp [decodeState,verifiedPayload,withIdentity,ofData,readable]

theorem validateForRestore_ofData (codec : SnapshotCodec) (data : SnapshotData) (lastIncludedIndex lastIncludedTerm : Nat)
    {opts : RestoreOptions} {clusterId : Option String}
    (same : ∀ expected found, opts.expectedClusterId = some expected → clusterId = some found →
      expected = found ∨ opts.allowClusterMismatch = true) :
    ((ofData codec data lastIncludedIndex lastIncludedTerm).withIdentity clusterId).validateForRestore codec opts =
      .ok () := by
  simp only [validateForRestore,verifiedPayload,withIdentity,ofData,gt_iff_lt,Nat.lt_irrefl,if_false,ne_eq,
    not_true_eq_false]
  cases asked : opts.expectedClusterId with
  | none => rfl
  | some expected =>
    cases given : clusterId with
    | none => rfl
    | some found =>
      refine if_neg ?_
      rintro ⟨other,strict⟩
      rcases same expected found asked given with equal | allowed
      · exact other equal
      · rw [allowed] at strict
        cases strict

variable [Host]

def materializeInto (codec : SnapshotCodec) (options : EngineOptions) (steps : RestoreSteps) (m : SnapshotManifest) :
    Except RestoreError Engine :=
  match m.decodeState codec with
  | .error e => .error (.snapshot e)
  | .ok data => match Engine.openWith ⟨∅,∅,0,0⟩ options ∅ with
    | .error err => .error (.apply err)
    | .ok e => match e.installSchemas steps.saved 0 data.schemas with
      | (_,.error err) => .error (.apply err)
      | (e,.ok ()) => match e.upsertAll steps.appended 0 data.records with
        | (_,.err err) => .error (.apply err)
        | (_,.panic message) => .error (.panicked message)
        | (e,.ok ()) => match e.analyzeAll steps.analyzed with
          | (_,.error err) => .error (.apply err)
          | (e,.ok ()) => .ok e

def restoreTo (codec : SnapshotCodec) (options : EngineOptions) (steps : RestoreSteps) (target : RestoreTarget)
    (opts : RestoreOptions) (m : SnapshotManifest) : Except RestoreError Engine :=
  match m.validateForRestore codec opts with
  | .error e => .error e
  | .ok () =>
    if target.nonempty = true ∧ opts.force = false then .error (.restoreRefused
      ("target directory " ++ target.path ++ " is not empty; pass --force to overwrite it"))
    else match m.materializeInto codec options steps with
      | .error e => .error e
      | .ok e => match steps.swapped with
        | .error reason => .error (.snapshot (.malformed reason))
        | .ok () => match Engine.openWith (steps.found e.storage) options e.plannerStats with
          | .error err => .error (.apply err)
          | .ok e => .ok e

theorem materializeInto_ok {codec : SnapshotCodec} {options : EngineOptions} {steps : RestoreSteps} (clean : steps.Clean)
    {e : Engine} (keyed : e.Keyed) (valid : ∀ schema ∈ e.listSchemas, schema.validateDefinition = .ok ())
    (restorable : e.Restorable e.listSchemas) {m : SnapshotManifest}
    (decoded : m.decodeState codec = .ok ⟨e.listSchemas,(e.recordsOf e.listSchemas).map shownAs⟩) :
    ∃ f, m.materializeInto codec options steps = .ok f ∧ Sound f ∧ SameRecords f e := by
  obtain ⟨fresh,opened,empty⟩ := openWith_empty options ∅
  obtain ⟨mid,f,installed,upserted,sound,same⟩ :=
    restorable.rebuilds keyed valid (.refl _) empty clean.saved clean.appended 0 0
  refine ⟨(f.analyzeAll (.ok ())).1,?_,sound.congr sound.storage rfl (fun _ => rfl) (fun _ => rfl),same.schemas,same.records⟩
  simp only [materializeInto,decoded,opened,installed,upserted,clean.analyzed]
  rfl

/-- Along any run: where every collection has its indexes, the records would each be accepted again, and none
links to one that comes later by collection and id, the snapshot restores with the same schemas and records. -/
theorem snapshot_restore_faithful [Ranked] {s t : System} {shown : List SchemaShown} (started : s.Started)
    (catalogued : s.Catalogued) (run : System.SchemaRuns s shown t)
    (indexed : ∀ (c : String) schema, t.engine.storage.schemas[c]? = some schema → (t.engine.indexes[c]?).isSome)
    (restorable : t.engine.Restorable t.engine.listSchemas) (elapsed : Stopwatch) (codec : SnapshotCodec)
    (readable : ∀ data, t.engine.capture elapsed = .ok data → codec.state.read (codec.state.write data) = .ok data)
    (lastIncludedIndex lastIncludedTerm : Nat) (clusterId : Option String) (opts : RestoreOptions)
    (same : ∀ expected found, opts.expectedClusterId = some expected → clusterId = some found →
      expected = found ∨ opts.allowClusterMismatch = true) (target : RestoreTarget) (vacant : target.nonempty = false)
    (options : EngineOptions) (steps : RestoreSteps) (clean : steps.Clean) :
    ∃ m, create codec t.engine elapsed lastIncludedIndex lastIncludedTerm = .ok m ∧
      (∃ f, (m.withIdentity clusterId).materializeInto codec options steps = .ok f ∧ SameRecords f t.engine) ∧
      ∃ f, (m.withIdentity clusterId).restoreTo codec options steps target opts = .ok f ∧ SameRecords f t.engine := by
  obtain ⟨ok,catalog⟩ := started.catalogued catalogued run
  have keyed : t.engine.Keyed := ⟨ok,fun c schema found => (catalog c schema found).1⟩
  have declared (schema : CollectionSchema) (listed : schema ∈ t.engine.listSchemas) :=
    (keyed.mem_listSchemas schema).mp listed
  have captured : t.engine.capture elapsed =
      .ok ⟨t.engine.listSchemas,(t.engine.recordsOf t.engine.listSchemas).map shownAs⟩ := by
    rw [capture,captureAll_recordsOf ok indexed elapsed declared]
    rfl
  have decoded := decodeState_ofData (readable _ captured) lastIncludedIndex lastIncludedTerm clusterId
  obtain ⟨f,built,sound,alike⟩ := @materializeInto_ok _ codec options steps clean t.engine keyed
    (fun schema listed => (catalog schema.name schema (declared schema listed)).2) restorable _ decoded
  refine ⟨_,by rw [create,captured]; rfl,⟨f,built,alike⟩,?_⟩
  have reads := clean.found f.storage sound.storage
  have named : f.Keyed := ⟨sound.storage,fun c schema found => keyed.schemas c schema (alike.schemas ▸ found)⟩
  obtain ⟨g,opened,-,stored⟩ := sound.covered.uniqueKeys.reopens named reads options f.plannerStats
  have back : SameRecords g f := ReadsBack.sameRecords (stored ▸ reads)
  refine ⟨g,?_,back.trans alike⟩
  simp only [restoreTo,validateForRestore_ofData codec _ _ _ same,vacant,Bool.false_eq_true,false_and,if_false,built,
    clean.swapped,opened]

end

def restoreSteps : RestoreSteps := ⟨fun _ => .ok (),fun _ => .ok (),.ok (),.ok (),id⟩

theorem restoreSteps_clean : restoreSteps.Clean :=
  ⟨fun _ => rfl,fun _ => rfl,rfl,rfl,fun _ ok => ⟨ok,rfl,fun _ _ => rfl⟩⟩

def people (name : String) : CollectionSchema := ⟨name,[⟨"id",.string,true,false,false,false⟩],[],[]⟩

def books (writers : String) : CollectionSchema :=
  ⟨"books",[⟨"id",.string,true,false,false,false⟩],[⟨"writer",writers,.toOne,.restrict⟩],[]⟩

def publish (writers : String) : List SchemaAct :=
  [.create (.ok ()) (books writers),.act (.mutate (.insert writers [("id",.text "w")]) (.ok ())),
    .act (.mutate (.insert "books" [("id",.text "b"),("writer",.text "w")]) (.ok ()))]

def indexedAll (e : Engine) : Bool := e.storage.schemas.toList.all (fun p => (e.indexes[p.1]?).isSome)

private theorem indexed_of_indexedAll {e : Engine} (test : indexedAll e = true) (c : String) (schema : CollectionSchema)
    (declared : e.storage.schemas[c]? = some schema) : (e.indexes[c]?).isSome :=
  List.all_eq_true.mp test (c,schema) (ExtTreeMap.mem_toList_iff_getElem?_eq_some.mpr declared)

def capturedOf (e : Engine) : SnapshotData :=
  match @capture plainHost noRanking e (fun _ => 0) with
  | .ok data => data
  | .error _ => ⟨[],[]⟩

theorem capturedOf_ok {e : Engine} {data : SnapshotData}
    (captured : @capture plainHost noRanking e (fun _ => 0) = .ok data) : capturedOf e = data := by
  simp only [capturedOf,captured]

def listedBook (e : Engine) : Bool :=
  (e.storage.scan "books").any (fun r => (r.fields.get "writer").any (·.eq (.text "w")))

theorem snapshot_restore_faithful_authors : ∃ t shown m f,
    @System.SchemaRuns plainHost (System.fresh (people "authors") ⟨60,1⟩) shown t ∧ listedBook t.engine = true ∧
      @create plainHost noRanking (codecOf (capturedOf t.engine) 1) t.engine (fun _ => 0) 1 1 = .ok m ∧
      @restoreTo plainHost (codecOf (capturedOf t.engine) 1) ⟨60,1⟩ restoreSteps ⟨"restored",false⟩ {}
        (m.withIdentity none) = .ok f ∧ SameRecords f t.engine := by
  obtain ⟨t,shown,run,book,indexed,restorable⟩ := Run.exists_free (@System.schemaStep plainHost)
    (publish "authors") (System.fresh (people "authors") ⟨60,1⟩)
    (fun t _ => listedBook t.engine = true ∧ indexedAll t.engine = true ∧
      @Engine.restorable plainHost t.engine ⟨60,1⟩ t.engine.listSchemas = true) (by decide +kernel)
  have started := @System.fresh_started plainHost (people "authors") ⟨60,1⟩
  have catalogued := @System.fresh_catalogued plainHost (people "authors") (by decide +kernel) ⟨60,1⟩
  obtain ⟨ok,catalog⟩ := @System.Started.catalogued plainHost _ _ _ started catalogued run
  obtain ⟨m,made,-,f,done,alike⟩ := @snapshot_restore_faithful plainHost noRanking _ t shown started catalogued run
    (indexed_of_indexedAll indexed)
    (@restorable_sound plainHost _ ⟨ok,fun c schema found => (catalog c schema found).1⟩ _ _ restorable) (fun _ => 0)
    (codecOf (capturedOf t.engine) 1) (fun data captured => by rw [capturedOf_ok captured]; rfl) 1 1 none {}
    (by simp) ⟨"restored",false⟩ rfl ⟨60,1⟩ restoreSteps restoreSteps_clean
  exact ⟨t,shown,m,f,run,book,made,done,alike⟩

/-- A book links to a writer, and in the order of names `books` come before `writers`. -/
theorem snapshot_restore_forward : ∃ t shown m data,
    @System.SchemaRuns plainHost (System.fresh (people "writers") ⟨60,1⟩) shown t ∧ listedBook t.engine = true ∧
      (codecOf data 1).state.read ((codecOf data 1).state.write data) = .ok data ∧
      @create plainHost noRanking (codecOf data 1) t.engine (fun _ => 0) 1 1 = .ok m ∧
      @restoreTo plainHost (codecOf data 1) ⟨60,1⟩ restoreSteps ⟨"restored",false⟩ {} m =
        .error (.apply (.schemaViolation "relationship writer references a missing writers record")) := by
  obtain ⟨t,shown,run,book,data,captured,failed⟩ := Run.exists_free (@System.schemaStep plainHost)
    (publish "writers") (System.fresh (people "writers") ⟨60,1⟩) (fun t _ => listedBook t.engine = true ∧
      ∃ data, @capture plainHost noRanking t.engine (fun _ => 0) = .ok data ∧
        @restoreTo plainHost (codecOf data 1) ⟨60,1⟩ restoreSteps ⟨"restored",false⟩ {} (ofData (codecOf data 1) data 1 1) =
          .error (.apply (.schemaViolation "relationship writer references a missing writers record")))
    (by decide +kernel)
  have made : @create plainHost noRanking (codecOf data 1) t.engine (fun _ => 0) 1 1 =
      .ok (ofData (codecOf data 1) data 1 1) := by
    unfold create
    rw [captured]
    rfl
  exact ⟨t,shown,_,data,run,book,rfl,made,failed⟩

end SnapshotManifest

end AuraDb.Replication
