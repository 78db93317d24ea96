import AuraDb.Engine.Horizon
import AuraDb.Storage.Schemas

/-! Creating and dropping collections in the engine. The catalog is saved before the indexes are built, so a
schema that the records do not fit is refused when it is already there. -/
namespace AuraDb
open Library Library.Framing Std CollectionIndexes
namespace Engine
section
variable [Host]

/-- `create_schema`, given how saving the catalog went. -/
def createSchema (saved : Result Unit) (schema : CollectionSchema) (e : Engine) : Engine × Result Unit :=
  match schema.validateDefinition with
  | .error err => (e,.error err)
  | .ok () =>
    let put := e.storage.putSchema saved schema
    let e := { e with storage := put.1 }
    match put.2 with
    | .error err => (e,.error err)
    | .ok () =>
      match (fromSchema schema).rebuild (e.storage.scan schema.name) with
      | .error err => (e,.error err)
      | .ok idx =>
        ({ e with
          indexes := e.indexes.insert schema.name idx
          plannerStats := e.plannerStats.insert schema.name (.compute schema (e.storage.scan schema.name)) },.ok ())

/-- `Engine::open_with` on a directory without index snapshots. -/
def openDirectory (codec : Codec Batch) (syncOnCommit : Bool) (options : EngineOptions) (stats : PlannerStats)
    (d : Disk) : Result Engine :=
  match AuraDb.openWith codec syncOnCommit d with
  | (_,.error err) => .error err
  | (_,.ok st) => openWith st.mem options stats

def dropSchema (appended saved : Result Unit) (name : String) (e : Engine) : Engine × Result Unit :=
  match e.storage.dropSchema appended saved name with
  | (storage,.error err) => ({ e with storage := storage },.error err)
  | (storage,.ok ()) => ({ e with storage := storage, indexes := e.indexes.erase name },.ok ())

theorem scan_putSchema (saved : Result Unit) (schema : CollectionSchema) (s : Storage) (c : String) :
    (s.putSchema saved schema).1.scan c = s.scan c := by
  apply Storage.scan_congr
  intro i
  rw [Storage.get_eq,Storage.get_eq,Storage.chainOf_putSchema]

theorem storage_createSchema (saved : Result Unit) (schema : CollectionSchema) (e : Engine) :
    (e.createSchema saved schema).1.storage = (e.storage.putSchema saved schema).1 := by
  unfold createSchema
  split
  · rename_i refused
    simp [Storage.putSchema,refused]
  · dsimp only
    split
    · rfl
    · split <;> rfl

/-- No two records share a value of a field that the schema declares unique. -/
def Fits (e : Engine) (schema : CollectionSchema) : Prop := Live.Distinct (e.storage.get schema.name) schema

theorem rebuildIndexes_ok {storage : Storage} (ok : storage.WellFormed) (schemas : List CollectionSchema)
    (fit : ∀ schema ∈ schemas, Live.Distinct (storage.get schema.name) schema) :
    ∃ indexes, rebuildIndexes storage schemas = .ok indexes := by
  induction schemas with
  | nil => exact ⟨∅,rfl⟩
  | cons schema rest ih =>
    obtain ⟨idx,rebuilt⟩ := ok.rebuild_ok schema.name (fit schema (by simp))
    obtain ⟨indexes,others⟩ := ih (fun other inside => fit other (by simp [inside]))
    exact ⟨indexes.insert schema.name idx,by simp [rebuildIndexes,rebuilt,others,Except.map]⟩

theorem createSchema_ok_iff (saved : Result Unit) (schema : CollectionSchema) (e : Engine) :
    (e.createSchema saved schema).2 = .ok () ↔ schema.validateDefinition = .ok () ∧ saved = .ok () ∧
      ∃ idx, (fromSchema schema).rebuild (e.storage.scan schema.name) = .ok idx := by
  cases valid : schema.validateDefinition with
  | error err => simp [createSchema,valid]
  | ok done =>
    have put : (e.storage.putSchema saved schema).2 = saved := by
      simp only [Storage.putSchema,valid]
      split <;> rfl
    simp only [createSchema,valid,put,scan_putSchema]
    cases saved with
    | error err => simp
    | ok done =>
      cases rebuilt : (fromSchema schema).rebuild (e.storage.scan schema.name) <;> simp

/-- The index of a schema over the records there. -/
def rebuilt (s : Storage) (schema : CollectionSchema) : CollectionIndexes :=
  ((fromSchema schema).rebuild (s.scan schema.name)).toOption.getD (fromSchema schema)

theorem createSchema_cases (saved : Result Unit) (schema : CollectionSchema) (e : Engine) :
    (e.createSchema saved schema).2 = .ok () ∧
      (e.createSchema saved schema).1.indexes = e.indexes.insert schema.name (rebuilt e.storage schema) ∨
    (∃ err, (e.createSchema saved schema).2 = .error err) ∧
      (e.createSchema saved schema).1 = { e with storage := (e.storage.putSchema saved schema).1 } := by
  unfold createSchema
  split
  · rename_i refused
    exact .inr ⟨⟨_,rfl⟩,by simp [Storage.putSchema,refused]⟩
  · dsimp only
    split
    · exact .inr ⟨⟨_,rfl⟩,rfl⟩
    · rw [scan_putSchema]
      split
      · exact .inr ⟨⟨_,rfl⟩,rfl⟩
      · rename_i made
        exact .inl ⟨rfl,by simp [rebuilt,made,Except.toOption]⟩

end

def items (unique : Bool) : CollectionSchema := ⟨"Item",[⟨"status",.string,false,unique,true,false⟩],[],[]⟩

end Engine

/-! Schema changes under open transactions. Dropping a collection forgets the versions that a later commit would
have been checked against. -/
open Library.VersionChain
variable {e e' : Engine} {c : String}

namespace Storage

theorem putSchema_other [Host] (saved : Result Unit) (schema : CollectionSchema) (s : Storage) (c : String)
    (other : schema.name ≠ c) : (s.putSchema saved schema).1.schemas[c]? = s.schemas[c]? := by
  unfold putSchema
  split
  · rfl
  · split <;> simp [TreeMap.getElem?_insert_eq,other]

theorem lastCommitTs_putSchema [Host] (saved : Result Unit) (schema : CollectionSchema) (s : Storage) :
    (s.putSchema saved schema).1.lastCommitTs = s.lastCommitTs := by
  unfold putSchema
  split
  · rfl
  · split <;> rfl

end Storage

namespace Engine

def declares (e : Engine) (c : String) : Bool := e.storage.schemas.contains c

theorem declares_false_iff (e : Engine) (c : String) : e.declares c = false ↔ e.storage.schemas[c]? = none := by
  rw [declares,ExtTreeMap.contains_eq_isSome_getElem?,Option.isSome_eq_false_iff,Option.isNone_iff_eq_none]

structure SchemaFrame (e e' : Engine) : Prop where
  txns : e'.txns = e.txns
  clock : e'.clock = e.clock
  retained : e'.gcMinRetainedVersions = e.gcMinRetainedVersions

theorem dropSchema_frame (appended saved : Result Unit) (name : String) (e : Engine) :
    SchemaFrame e (e.dropSchema appended saved name).1 ∧
      (e.dropSchema appended saved name).1.storage = (e.storage.dropSchema appended saved name).1 := by
  unfold dropSchema
  split
  · rename_i dropped
    exact ⟨⟨rfl,rfl,rfl⟩,by rw [dropped]⟩
  · rename_i dropped
    exact ⟨⟨rfl,rfl,rfl⟩,by rw [dropped]⟩

def Absent (e : Engine) (c : String) : Prop := e.storage.schemas[c]? = none ∧ ∀ i, e.storage.get c i = none

theorem Absent.congr (absent : e.Absent c) (schemas : e'.storage.schemas[c]? = none)
    (chains : ∀ i, e'.storage.chainOf c i = e.storage.chainOf c i) : e'.Absent c := by
  refine ⟨schemas,?_⟩
  intro i
  rw [Storage.get_eq,chains,← Storage.get_eq]
  exact absent.2 i

variable [Host]

theorem createSchema_frame (saved : Result Unit) (schema : CollectionSchema) (e : Engine) :
    SchemaFrame e (e.createSchema saved schema).1 := by
  unfold createSchema
  split
  · exact ⟨rfl,rfl,rfl⟩
  · dsimp only
    split
    · exact ⟨rfl,rfl,rfl⟩
    · split <;> exact ⟨rfl,rfl,rfl⟩

end Engine

inductive SchemaAct where
  | act (a : Act)
  | create (saved : Result Unit) (schema : CollectionSchema)
  | drop (appended saved : Result Unit) (name : String)

/-- What a run shows: a commit, a collection that came to be, or one that went. -/
inductive SchemaShown where
  | committed (ev : Committed)
  | created (name : String)
  | dropped (name : String) (ts : Nat) (ids : List RecordId)
  deriving DecidableEq

namespace SchemaShown

def drops (c : String) : SchemaShown → Bool
  | .dropped name _ _ => name == c
  | _ => false

def sinceDrop (c : String) (shown : List SchemaShown) : List SchemaShown :=
  shown.foldl (fun since x => if x.drops c then [] else since ++ [x]) []

theorem sinceDrop_append (c : String) (shown now : List SchemaShown) (kept : ∀ x ∈ now, x.drops c = false) :
    sinceDrop c (shown ++ now) = sinceDrop c shown ++ now := by
  rw [sinceDrop,List.foldl_append,← sinceDrop]
  induction now using List.reverseRecOn with
  | nil => simp
  | append_singleton now x ih =>
    rw [List.foldl_append,ih (fun y inside => kept y (by simp [inside]))]
    simp [kept x (by simp)]

theorem sinceDrop_dropped (c : String) (shown : List SchemaShown) (ts : Nat) (ids : List RecordId) :
    sinceDrop c (shown ++ [.dropped c ts ids]) = [] := by
  simp [sinceDrop,drops]

theorem mem_of_sinceDrop {shown : List SchemaShown} {x : SchemaShown} (inside : x ∈ sinceDrop c shown) :
    x ∈ shown := by
  induction shown using List.reverseRecOn with
  | nil => simp [sinceDrop] at inside
  | append_singleton shown y ih =>
    simp only [sinceDrop,List.foldl_append,List.foldl_cons,List.foldl_nil] at inside
    split at inside
    · simp at inside
    · rcases List.mem_append.mp inside with old | new
      · exact List.mem_append_left _ (ih old)
      · exact List.mem_append_right _ new

end SchemaShown

namespace System
open SchemaShown
section
variable [Host] {a : Act}

def schemaStep (s : System) : SchemaAct → Option (System × List SchemaShown)
  | .act a => (step s a).map (fun p => (p.1,p.2.map .committed))
  | .create saved schema =>
    let e := (s.engine.createSchema saved schema).1
    some (⟨e,s.handles⟩,if !s.engine.declares schema.name && e.declares schema.name then [.created schema.name] else [])
  | .drop appended saved name =>
    let e := (s.engine.dropSchema appended saved name).1
    some (⟨e,s.handles⟩,if s.engine.declares name && !e.declares name then
      [.dropped name e.storage.lastCommitTs (s.engine.storage.liveIds name)] else [])

abbrev SchemaRuns (s : System) (shown : List SchemaShown) (t : System) : Prop :=
  Run schemaStep (fun _ _ => True) s shown t

/-- Since its collection was last dropped, the writes of a key are seen; a dropped collection has neither schema
nor live records. -/
structure Remembered (shown : List SchemaShown) (s : System) : Prop where
  tracked : Tracked s
  past : ∀ ev, .committed ev ∈ shown → ev.ts ≤ s.engine.storage.lastCommitTs
  seen : ∀ (k : Key) ev, .committed ev ∈ sinceDrop k.collection shown → ev.Wrote k → Seen s.engine k ev.ts
  gone : ∀ c, (∃ x ∈ shown, drops c x = true) → .created c ∉ sinceDrop c shown → Engine.Absent s.engine c

theorem Stored.absent {s : System} (stored : Stored s a e') (tracked : Tracked s)
    (absent : Engine.Absent s.engine c) : Engine.Absent e' c := by
  obtain ⟨schema,nothing⟩ := absent
  refine ⟨by rw [stored.schemas]; exact schema,?_⟩
  intro i
  have unwritten {txnId : TxnId} {changes : List Change} (effect : Engine.Effect s.engine e' txnId changes)
      (deletes : ∀ ch ∈ changes, ch.key.collection = c → ch.new = none) : e'.storage.get c i = none := by
    rw [effect.get tracked.wellFormed c,Live.rewrite_apply]
    cases found : (Change.writesTo changes c).reverse.find? (fun w => w.1 == i) with
    | none => exact nothing i
    | some w =>
      obtain ⟨ch,inside,same,rfl⟩ := Change.mem_writesTo (List.mem_reverse.mp (List.mem_of_find?_eq_some found))
      exact deletes ch inside same
  cases stored with
  | quiet storage indexes => rw [storage]; exact nothing i
  | pruned rewritten isGc storage indexes =>
    rw [storage,Storage.get_pruned _ _ _ _ _ (Nat.lt_of_lt_of_le Nat.one_pos (Nat.le_max_right _ _))]
    exact nothing i
  | mutated m io isMutate changes some effect made =>
    refine unwritten effect ?_
    intro ch inside same
    obtain ⟨schema',declared,each,-⟩ := made
    rw [← (each ch inside).1,same,schema] at declared
    cases declared
  | committed id io isCommit txn held some inTime effect admissible =>
    refine unwritten effect ?_
    intro ch inside same
    cases isNew : ch.new with
    | none => rfl
    | some r =>
      obtain ⟨staged,found,-⟩ := Engine.stagedChange_new inside isNew
      obtain ⟨schema',declared,-⟩ := (admissible ch.key _ found).2
      rw [same,schema] at declared
      cases declared

variable {s s₀ : System} {shown : List SchemaShown} {now : List SchemaShown} {s' : System}

omit [Host] in
theorem Remembered.still_gone (kept : Remembered shown s)
    (others : ∀ x ∈ now, x.drops c = false) (dropped : ∃ x ∈ shown ++ now, drops c x = true)
    (uncreated : .created c ∉ sinceDrop c (shown ++ now)) : Engine.Absent s.engine c ∧ .created c ∉ now := by
  rw [sinceDrop_append c shown now others,List.mem_append,not_or] at uncreated
  obtain ⟨x,inside,isDrop⟩ := dropped
  refine ⟨kept.gone c ⟨x,?_,isDrop⟩ uncreated.1,uncreated.2⟩
  rcases List.mem_append.mp inside with old | new
  · exact old
  · rw [others x new] at isDrop
    cases isDrop

theorem Remembered.act (kept : Remembered shown s) {now : List Committed}
    (taken : step s a = some (s',now)) : Remembered (shown ++ now.map .committed) s' := by
  have stepped := step_stepped kept.tracked taken
  have fresh (ev : Committed) (new : ev ∈ now) : ev.ts = s'.engine.storage.lastCommitTs ∧
      ∀ k, ev.Wrote k → Seen s'.engine k ev.ts := by
    rw [stepped.shown] at new
    obtain ⟨-,level,-,seen⟩ := mem_committed new
    exact ⟨level,seen⟩
  have others (c : String) : ∀ x ∈ now.map SchemaShown.committed, x.drops c = false := by
    intro x inside
    obtain ⟨ev,-,rfl⟩ := List.mem_map.mp inside
    rfl
  refine ⟨stepped.tracked kept.tracked,?_,?_,?_⟩
  · intro ev inside
    rcases List.mem_append.mp inside with old | new
    · exact (kept.past ev old).trans stepped.stored.watermark
    · exact Nat.le_of_eq (fresh ev (by simpa using new)).1
  · intro k ev inside wrote
    rw [sinceDrop_append _ _ _ (others _)] at inside
    rcases List.mem_append.mp inside with old | new
    · exact stepped.seen kept.tracked (kept.past ev (mem_of_sinceDrop old)) (kept.seen k ev old wrote)
    · exact (fresh ev (by simpa using new)).2 k wrote
  · intro c dropped uncreated
    exact stepped.stored.absent kept.tracked (kept.still_gone (others c) dropped uncreated).1

omit [Host] in
theorem Tracked.schema (tracked : Tracked s) (frame : Engine.SchemaFrame s.engine e')
    (ok : e'.storage.WellFormed) (later : s.engine.storage.lastCommitTs ≤ e'.storage.lastCommitTs) :
    Tracked ⟨e',s.handles⟩ := by
  refine ⟨ok,?_,?_,frame.retained ▸ tracked.retained⟩
  · intro id entry found
    rw [frame.txns] at found
    obtain ⟨pinned,known⟩ := tracked.pinned id entry found
    exact ⟨pinned.trans later,frame.clock ▸ known⟩
  · simp only [frame.txns]
    exact tracked.held

omit [Host] in
theorem Seen.schema (frame : Engine.SchemaFrame e e') {k : Key}
    (chain : e'.storage.chainOf k.collection k.id = e.storage.chainOf k.collection k.id) {ts : Nat}
    (seen : Seen e k ts) : Seen e' k ts := by
  intro id entry found active pins
  rw [Storage.latestCommitTs_eq,chain,← Storage.latestCommitTs_eq]
  exact seen id entry (frame.txns ▸ found) active pins

section
variable (kept : Remembered shown s)
include kept

theorem Remembered.create (saved : Result Unit) (schema : CollectionSchema) :
    let e := (s.engine.createSchema saved schema).1
    Remembered (shown ++ if !s.engine.declares schema.name && e.declares schema.name then
      [.created schema.name] else []) ⟨e,s.handles⟩ := by
  intro e
  have frame : Engine.SchemaFrame s.engine e := Engine.createSchema_frame saved schema s.engine
  have storage : e.storage = (s.engine.storage.putSchema saved schema).1 :=
    Engine.storage_createSchema saved schema s.engine
  have chains (c : String) (i : RecordId) : e.storage.chainOf c i = s.engine.storage.chainOf c i := by
    rw [storage,Storage.chainOf_putSchema]
  have level : e.storage.lastCommitTs = s.engine.storage.lastCommitTs := by
    rw [storage,Storage.lastCommitTs_putSchema]
  generalize shows : (if !s.engine.declares schema.name && e.declares schema.name then
    [SchemaShown.created schema.name] else []) = now
  have only (x : SchemaShown) (inside : x ∈ now) : x = .created schema.name := by
    rw [← shows] at inside
    split at inside
    · exact List.mem_singleton.mp inside
    · cases inside
  have others (c : String) : ∀ x ∈ now, x.drops c = false := by
    intro x inside
    rw [only x inside]
    rfl
  refine ⟨kept.tracked.schema frame (kept.tracked.wellFormed.congr chains (Nat.le_of_eq level.symm))
    (Nat.le_of_eq level.symm),?_,?_,?_⟩
  · intro ev inside
    rcases List.mem_append.mp inside with old | new
    · exact level ▸ kept.past ev old
    · cases only _ new
  · intro k ev inside wrote
    rw [sinceDrop_append _ _ _ (others _)] at inside
    rcases List.mem_append.mp inside with old | new
    · exact (kept.seen k ev old wrote).schema frame (chains _ _)
    · cases only _ new
  · intro c dropped uncreated
    obtain ⟨absent,notNow⟩ := kept.still_gone (others c) dropped uncreated
    refine absent.congr ?_ (chains c)
    by_cases same : schema.name = c
    · -- the collection has just been created unless the definition was refused
      have undeclared := (s.engine.declares_false_iff c).mpr absent.1
      refine (e.declares_false_iff c).mp (Bool.eq_false_iff.mpr ?_)
      intro declared
      apply notNow
      rw [← shows,same]
      simp [undeclared,declared]
    · rw [storage,Storage.putSchema_other saved schema _ c same]
      exact absent.1

omit [Host] in
theorem Remembered.forgot {name : String} {mid : Storage}
    (frame : Engine.SchemaFrame s.engine e) (storage : e.storage = mid.forgotten name)
    (written : mid = s.engine.storage ∨
      mid = s.engine.storage.applied (s.engine.storage.lastCommitTs + 1) (s.engine.storage.dropBatch name))
    (ids : List RecordId) : Remembered (shown ++ [.dropped name e.storage.lastCommitTs ids]) ⟨e,s.handles⟩ := by
  have ok := kept.tracked.wellFormed
  have midOk : mid.WellFormed ∧ s.engine.storage.lastCommitTs ≤ mid.lastCommitTs := by
    rcases written with rfl | rfl
    · exact ⟨ok,Nat.le_refl _⟩
    · exact ⟨ok.applied _ _ (Nat.lt_succ_self _),Nat.le_succ _⟩
  have later : s.engine.storage.lastCommitTs ≤ e.storage.lastCommitTs := by
    rw [storage]
    exact midOk.2
  have chains (c : String) (i : RecordId) (other : name ≠ c) :
      e.storage.chainOf c i = s.engine.storage.chainOf c i := by
    rw [storage]
    exact Storage.chainOf_dropped ok written c i other
  have others (c : String) (other : name ≠ c) : ∀ x ∈ [SchemaShown.dropped name e.storage.lastCommitTs ids],
      x.drops c = false := by simpa [drops] using other
  refine ⟨kept.tracked.schema frame (by rw [storage]; exact midOk.1.forgotten name) later,?_,?_,?_⟩
  · intro ev inside
    exact (kept.past ev (by simpa using inside)).trans later
  · intro k ev inside wrote
    by_cases same : name = k.collection
    · rw [same,sinceDrop_dropped] at inside
      cases inside
    · rw [sinceDrop_append _ _ _ (others _ same)] at inside
      exact (kept.seen k ev (by simpa using inside) wrote).schema frame (chains _ _ same)
  · intro c dropped uncreated
    by_cases same : name = c
    · subst same
      refine ⟨by rw [storage]; simp [Storage.forgotten],?_⟩
      rw [storage]
      exact (mid.unreadable_forgotten name).1
    · obtain ⟨absent,-⟩ := kept.still_gone (others c same) dropped uncreated
      refine absent.congr ?_ (fun i => chains c i same)
      have midSchemas : mid.schemas = s.engine.storage.schemas := by
        rcases written with rfl | rfl <;> rfl
      rw [storage]
      simp only [Storage.forgotten,TreeMap.getElem?_erase_eq,if_neg same,midSchemas]
      exact absent.1

omit [Host] in
theorem Remembered.drop (appended saved : Result Unit) (name : String) :
    let e := (s.engine.dropSchema appended saved name).1
    Remembered (shown ++ if s.engine.declares name && !e.declares name then
      [.dropped name e.storage.lastCommitTs (s.engine.storage.liveIds name)] else []) ⟨e,s.handles⟩ := by
  intro e
  obtain ⟨frame,storage⟩ := Engine.dropSchema_frame appended saved name s.engine
  rcases s.engine.storage.dropSchema_storage appended saved name with same | ⟨held,mid,written,forgot⟩
  · have unchanged : e.storage = s.engine.storage := storage.trans same
    have quiet : (s.engine.declares name && !e.declares name) = false := by simp [Engine.declares,unchanged]
    rw [if_neg (by simp [quiet]),List.append_nil]
    refine ⟨kept.tracked.schema frame (by rw [unchanged]; exact kept.tracked.wellFormed) (by rw [unchanged]),?_,?_,?_⟩
    · exact fun ev inside => by rw [unchanged]; exact kept.past ev inside
    · exact fun k ev inside wrote => (kept.seen k ev inside wrote).schema frame (by rw [unchanged])
    · exact fun c dropped uncreated => by
        unfold Engine.Absent
        rw [unchanged]
        exact kept.gone c dropped uncreated
  · have isForgotten : e.storage = mid.forgotten name := storage.trans forgot
    have gone : e.declares name = false := by
      rw [Engine.declares_false_iff,isForgotten]
      simp [Storage.forgotten]
    have declared : s.engine.declares name = true := held
    rw [if_pos (by rw [declared,gone]; rfl)]
    exact kept.forgot frame isForgotten written _

theorem Remembered.step {a : SchemaAct} (taken : schemaStep s a = some (s',now)) : Remembered (shown ++ now) s' := by
  cases a with
  | act a =>
    obtain ⟨p,stepped,same⟩ := Option.map_eq_some_iff.mp taken
    cases same
    exact kept.act stepped
  | create saved schema =>
    cases taken
    exact kept.create saved schema
  | drop appended saved name =>
    cases taken
    exact kept.drop appended saved name

end

theorem Started.remembered (started : Started s₀) (run : SchemaRuns s₀ shown s) : Remembered shown s :=
  run.invariant Remembered ⟨started.tracked,by simp,by simp [sinceDrop],by simp⟩
    (fun _ _ _ _ _ kept _ taken => kept.step taken)

/-- Along any run with schema changes, a transaction that commits overwrites nothing written after its snapshot
and since the collection was last dropped; a dropped collection has been created again. -/
theorem commit_since_drop (started : Started s₀) (run : SchemaRuns s₀ shown s) {id : TxnId} {txn : Transaction}
    (held : s.handles[id]? = some txn) {io : Result Unit} {e' : Engine}
    (commits : s.engine.commit io txn = (e',.ok ())) {k : Key} {op : StagedOp} (staged : txn.staged[k]? = some op) :
    (∀ ev, .committed ev ∈ sinceDrop k.collection shown → ev.Wrote k → ev.ts ≤ txn.readTs) ∧
      ((∃ x ∈ shown, drops k.collection x = true) → .created k.collection ∈ sinceDrop k.collection shown) := by
  have kept := started.remembered run
  have ends := Engine.commit_ends kept.tracked.wellFormed io txn
  rw [commits] at ends
  cases ends with
  | committed inTime e1 effect frame admissible deletes =>
    refine ⟨?_,?_⟩
    · intro ev inside wrote
      exact kept.tracked.commit_seen held inTime admissible staged (kept.seen k ev inside wrote)
    · intro dropped
      by_contra uncreated
      obtain ⟨schemas,nothing⟩ := kept.gone k.collection dropped uncreated
      cases op with
      | put r =>
        obtain ⟨schema,declared,-⟩ := (admissible k _ staged).2
        rw [schemas] at declared
        cases declared
      | delete => exact deletes ⟨k,staged,nothing k.id⟩

end

def dropNotes : SchemaAct := .drop (.ok ()) (.ok ()) "notes"

def createNotes : SchemaAct := .create (.ok ()) notes

abbrev CommitsNote (s : System) (id : TxnId) (readTs : Nat) : Prop :=
  ∃ txn ∈ s.handles[id]?, ∃ op ∈ txn.staged[(⟨"notes",noteId "a"⟩ : Key)]?, txn.readTs = readTs ∧
    (@Engine.commit plainHost s.engine (.ok ()) txn).2 = .ok ()

theorem commit_since_drop_notes : ∃ s shown txn op e', @SchemaRuns plainHost (fresh notes ⟨60,1⟩) shown s ∧
    s.handles[(1 : TxnId)]? = some txn ∧ txn.staged[(⟨"notes",noteId "a"⟩ : Key)]? = some op ∧
    @Engine.commit plainHost s.engine (.ok ()) txn = (e',.ok ()) ∧ (∃ x ∈ shown, drops "notes" x = true) ∧
    .created "notes" ∈ sinceDrop "notes" shown := by
  obtain ⟨s,shown,run,⟨txn,held,op,staged,-,done⟩,before⟩ := Run.exists_free (@schemaStep plainHost)
    [.act (.begin 0 none),.act (.stage 1 (.insert "notes" [("id",.text "a")]) 0),dropNotes,createNotes]
    (fresh notes ⟨60,1⟩) (fun s shown => CommitsNote s 1 0 ∧ ∃ x ∈ shown, drops "notes" x = true) (by decide +kernel)
  have commits : @Engine.commit plainHost s.engine (.ok ()) txn =
      ((@Engine.commit plainHost s.engine (.ok ()) txn).1,.ok ()) := Prod.ext rfl done
  have since := @commit_since_drop plainHost s _ shown (@fresh_started plainHost notes ⟨60,1⟩) run 1 txn held (.ok ())
    _ commits ⟨"notes",noteId "a"⟩ op staged
  exact ⟨s,shown,txn,op,_,run,held,staged,commits,before,since.2 before⟩

/-- A transaction stages a write of a note. The collection is dropped and created again, and the transaction
commits. -/
theorem commit_over_drop : ∃ s shown txn op e', @SchemaRuns plainHost (fresh notes ⟨60,1⟩) shown s ∧
    s.handles[(2 : TxnId)]? = some txn ∧ txn.staged[(⟨"notes",noteId "a"⟩ : Key)]? = some op ∧ txn.readTs = 1 ∧
    (∃ ts ids, .dropped "notes" ts ids ∈ shown ∧ txn.readTs < ts ∧ noteId "a" ∈ ids) ∧
    @Engine.commit plainHost s.engine (.ok ()) txn = (e',.ok ()) := by
  obtain ⟨s,shown,run,⟨txn,held,op,staged,snapshot,done⟩,dropped⟩ := Run.exists_free (@schemaStep plainHost)
    [.act (.mutate (.insert "notes" [("id",.text "a")]) (.ok ())),.act (.begin 0 none),
      .act (.stage 2 (.upsert "notes" [("id",.text "a"),("status",.text "mine")]) 0),dropNotes,createNotes]
    (fresh notes ⟨60,1⟩) (fun s shown => CommitsNote s 2 1 ∧ .dropped "notes" 2 [noteId "a"] ∈ shown) (by decide +kernel)
  exact ⟨s,shown,txn,op,_,run,held,staged,snapshot,⟨2,_,dropped,snapshot ▸ Nat.lt_succ_self 1,List.mem_singleton_self _⟩,
    Prod.ext rfl done⟩

end System

end AuraDb
