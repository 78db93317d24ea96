import AuraDb.Engine.Change

/-! Which changes each write path makes. One lemma per function says how its calls can end: nothing written,
checked changes committed, or a panic. -/
namespace AuraDb
open Library Std CollectionIndexes Change

def pendingKey [Host] (r : Record) (f : FieldDef) : Option String :=
  if f.primaryKey || f.unique then (fieldKey f.name r).map (fun k => f.name ++ "\x00" ++ k) else none

def pendingKeys [Host] (schema : CollectionSchema) (r : Record) : List String :=
  schema.fields.filterMap (pendingKey r)

def Numbered [Host] (schema : CollectionSchema) : Nat → List Document → List Record → Prop
  | _, [], [] => True
  | n, fields::docs, r::records =>
    r.fields = fields ∧ recordIdFor schema fields n = .ok r.id ∧ Numbered schema (n + 1) docs records
  | _, _, _ => False

theorem numbered_iff [Host] {schema : CollectionSchema} (keyed : schema.primaryKey.isSome) (n : Nat)
    (docs : List Document) (records : List Record) : Numbered schema n docs records ↔
      docs = records.map (·.fields) ∧ ∀ r ∈ records, recordIdFor schema r.fields 0 = .ok r.id := by
  induction docs generalizing n records with
  | nil => cases records <;> simp [Numbered]
  | cons d docs ih =>
    cases records with
    | nil => simp [Numbered]
    | cons r rest =>
      simp only [Numbered,ih,recordIdFor_clock keyed d n,List.map_cons,List.cons.injEq,List.forall_mem_cons]
      constructor
      · rintro ⟨rfl,named,same,others⟩
        exact ⟨⟨rfl,same⟩,named,others⟩
      · rintro ⟨⟨rfl,same⟩,named,others⟩
        exact ⟨rfl,named,same,others⟩

theorem checkPendingFields_ok_iff [Host] (r : Record) (fields : List FieldDef) (pending next : List String) :
    checkPendingFields r fields pending = .ok next ↔
      (fields.filterMap (pendingKey r)).Nodup ∧ (fields.filterMap (pendingKey r)).Disjoint pending ∧
        next = (fields.filterMap (pendingKey r)).reverse ++ pending := by
  induction fields generalizing pending with
  | nil => simp [checkPendingFields,eq_comm]
  | cons f rest ih =>
    have skip (none : pendingKey r f = none)
        (same : checkPendingFields r (f::rest) pending = checkPendingFields r rest pending) :
        checkPendingFields r (f::rest) pending = .ok next ↔
          ((f::rest).filterMap (pendingKey r)).Nodup ∧ ((f::rest).filterMap (pendingKey r)).Disjoint pending ∧
            next = ((f::rest).filterMap (pendingKey r)).reverse ++ pending := by
      rw [same,List.filterMap_cons,none,ih]
    cases role : f.primaryKey || f.unique with
    | false => exact skip (by simp [pendingKey,role]) (by simp [checkPendingFields,role])
    | true =>
      cases held : r.fields.get f.name with
      | none => exact skip (by simp [pendingKey,fieldKey,held]) (by simp [checkPendingFields,held])
      | some value =>
        cases null : value.isNull with
        | true =>
          exact skip (by simp [pendingKey,fieldKey,held,valueKey,null])
            (by simp [checkPendingFields,held,null])
        | false =>
          have key : pendingKey r f = some (f.name ++ "\x00" ++ indexKey value) := by
            simp [pendingKey,role,fieldKey,held,valueKey,null]
          simp only [checkPendingFields,role,Bool.not_true,Bool.false_eq_true,if_false,held,null,
            List.filterMap_cons,key]
          by_cases seen : f.name ++ "\x00" ++ indexKey value ∈ pending
          · simp [seen]
          · rw [if_neg (by simpa using seen),ih]
            simp only [List.nodup_cons,List.disjoint_cons_left,List.disjoint_cons_right,
              List.reverse_cons,List.append_assoc,List.cons_append,List.nil_append]
            tauto

theorem checkPendingUnique_ok_iff [Host] (schema : CollectionSchema) (r : Record) (pending next : List String) :
    checkPendingUnique schema r pending = .ok next ↔ (pendingKeys schema r).Nodup ∧
      (pendingKeys schema r).Disjoint pending ∧ next = (pendingKeys schema r).reverse ++ pending :=
  checkPendingFields_ok_iff r schema.fields pending next

namespace Engine
variable {e : Engine} {schema : CollectionSchema} {c : String} {txnId : TxnId}
  {prepared : List (Option Record × Record)}

theorem schemaFor_ok_iff (e : Engine) (c : String) (schema : CollectionSchema) :
    e.schemaFor c = .ok schema ↔ e.storage.schemas[c]? = some schema := by
  unfold schemaFor Storage.getSchema
  cases e.storage.schemas[c]? <;> simp

variable [Host] {m : String}
  {filter : Option Filter} {set : Document} {pending : List String} {mode : WriteMode} {clock : Nat}

def writtenRecord (e : Engine) (collection : String) (txnId : TxnId) (fields : Document) (id : RecordId) :
    Record := ⟨id,collection,fields,((e.storage.get collection id).map (·.version + 1)).getD 1,txnId⟩

structure WriteOk (e : Engine) (schema : CollectionSchema) (collection : String) (mode : WriteMode)
    (txnId : TxnId) (pending : List String) (fields : Document) (fallback : Nat) (id : RecordId)
    (idx : CollectionIndexes) : Prop where
  named : recordIdFor schema fields fallback = .ok id
  absent : mode = .insert → e.storage.get collection id = none
  references : e.referentialCheck schema fields = .ok ()
  indexed : e.indexes[collection]? = some idx
  unique : idx.checkUnique (e.writtenRecord collection txnId fields id)
    ((e.storage.get collection id).map (·.id)) = .ok ()
  fresh : (pendingKeys schema (e.writtenRecord collection txnId fields id)).Nodup ∧
    (pendingKeys schema (e.writtenRecord collection txnId fields id)).Disjoint pending

section
variable {collection : String}
  {fields : Document} {rest : List Document}

theorem prepareWrite_ok_iff {p : Option Record × Record} {next : List String} :
    e.prepareWrite schema collection mode txnId pending fields clock = .ok (p,next) ↔
      ∃ id idx, WriteOk e schema collection mode txnId pending fields clock id idx ∧
        p = (e.storage.get collection id,e.writtenRecord collection txnId fields id) ∧
        next = (pendingKeys schema (e.writtenRecord collection txnId fields id)).reverse ++ pending := by
  constructor
  · intro prepared
    unfold prepareWrite at prepared
    cases named : recordIdFor schema fields clock with
    | error err => simp [named] at prepared
    | ok id =>
      simp only [named] at prepared
      split at prepared
      · cases prepared
      rename_i free
      split at prepared
      · cases prepared
      rename_i u references
      split at prepared
      · cases prepared
      rename_i idx indexed
      split at prepared
      · cases prepared
      rename_i unique
      split at prepared
      · cases prepared
      rename_i pending' fresh
      cases prepared
      obtain ⟨nodup,disjoint,rfl⟩ := (checkPendingUnique_ok_iff _ _ _ _).mp fresh
      refine ⟨id,idx,⟨named,?_,references,indexed,unique,nodup,disjoint⟩,rfl,rfl⟩
      intro isInsert
      simpa [isInsert] using free
  · rintro ⟨id,idx,ok,rfl,rfl⟩
    have free : ¬((e.storage.get collection id).isSome ∧ mode = .insert) := by
      rintro ⟨present,isInsert⟩
      simp [ok.absent isInsert] at present
    have fresh := (checkPendingUnique_ok_iff schema (e.writtenRecord collection txnId fields id) pending _).mpr
      ⟨ok.fresh.1,ok.fresh.2,rfl⟩
    have unique := ok.unique
    simp only [writtenRecord] at fresh unique
    simp only [prepareWrite,ok.named,if_neg free,ok.references,ok.indexed,unique,fresh,writtenRecord]

theorem prepareWrite_panic (panicked : e.prepareWrite schema collection mode txnId pending fields clock = .panic m) :
    e.indexes[collection]? = none := by
  unfold prepareWrite at panicked
  split at panicked
  · cases panicked
  simp only at panicked
  split at panicked
  · cases panicked
  split at panicked
  · cases panicked
  split at panicked
  · assumption
  · split at panicked
    · cases panicked
    · split at panicked <;> cases panicked

def DocOk (e : Engine) (schema : CollectionSchema) (fields : Document) : Prop :=
  schema.validateRecord fields = .ok () ∧ e.referentialCheck schema fields = .ok ()

structure Gathered (e : Engine) (schema : CollectionSchema) (collection : String) (mode : WriteMode)
    (txnId : TxnId) (docs : List Document) (clock : Nat) (pending : List String)
    (prepared : List (Option Record × Record)) : Prop where
  numbered : Numbered schema clock docs (prepared.map (·.2))
  valid : ∀ fields ∈ docs, DocOk e schema fields
  made : ∀ p ∈ prepared, p = (e.storage.get collection p.2.id,
    e.writtenRecord collection txnId p.2.fields p.2.id)
  absent : mode = .insert → ∀ p ∈ prepared, p.1 = none
  unique : ∀ p ∈ prepared, ∃ idx, e.indexes[collection]? = some idx ∧
    idx.checkUnique p.2 (p.1.map (·.id)) = .ok ()
  fresh : (prepared.flatMap (fun p => pendingKeys schema p.2)).Nodup
  apart : (prepared.flatMap (fun p => pendingKeys schema p.2)).Disjoint pending

private theorem Gathered.nil_iff :
    Gathered e schema collection mode txnId [] clock pending prepared ↔ prepared = [] := by
  constructor
  · intro gathered
    cases prepared with
    | nil => rfl
    | cons p rest => exact absurd gathered.numbered (by simp [Numbered])
  · rintro rfl
    exact ⟨trivial,by simp,by simp,by simp,by simp,by simp,by simp⟩

private theorem Gathered.uncons
    (gathered : Gathered e schema collection mode txnId (fields::rest) clock pending prepared) :
    ∃ id idx others, schema.validateRecord fields = .ok () ∧
      WriteOk e schema collection mode txnId pending fields clock id idx ∧
      prepared = (e.storage.get collection id,e.writtenRecord collection txnId fields id)::others ∧
      Gathered e schema collection mode txnId rest (clock + 1)
        ((pendingKeys schema (e.writtenRecord collection txnId fields id)).reverse ++ pending) others := by
  cases prepared with
  | nil => exact absurd gathered.numbered (by simp [Numbered])
  | cons p others =>
    obtain ⟨same,named,numbered⟩ := gathered.numbered
    have made := gathered.made p (by simp)
    rw [same] at made
    obtain ⟨idx,indexed,unique⟩ := gathered.unique p (by simp)
    have fresh := gathered.fresh
    have apart := gathered.apart
    obtain ⟨own,later,disjoint⟩ := List.nodup_append'.mp fresh
    obtain ⟨first,second⟩ := List.disjoint_append_left.mp apart
    have old : p.1 = e.storage.get collection p.2.id := congrArg Prod.fst made
    have new : p.2 = e.writtenRecord collection txnId fields p.2.id := congrArg Prod.snd made
    refine ⟨p.2.id,idx,others,(gathered.valid fields (by simp)).1,?_,by rw [← made],?_⟩
    · refine ⟨named,?_,(gathered.valid fields (by simp)).2,indexed,?_,?_⟩
      · exact fun isInsert => old ▸ gathered.absent isInsert p (by simp)
      · rw [← new,← old]
        exact unique
      · rw [← new]
        exact ⟨own,first⟩
    · refine ⟨numbered,fun d inside => gathered.valid d (by simp [inside]),
        fun q inside => gathered.made q (by simp [inside]),
        fun isInsert q inside => gathered.absent isInsert q (by simp [inside]),
        fun q inside => gathered.unique q (by simp [inside]),later,?_⟩
      rw [← new]
      refine List.disjoint_append_right.mpr ⟨?_,second⟩
      intro k late early
      exact disjoint (by simpa using early) late

private theorem Gathered.cons {id : RecordId} {idx : CollectionIndexes} {others : List (Option Record × Record)}
    (valid : schema.validateRecord fields = .ok ())
    (ok : WriteOk e schema collection mode txnId pending fields clock id idx)
    (found : Gathered e schema collection mode txnId rest (clock + 1)
      ((pendingKeys schema (e.writtenRecord collection txnId fields id)).reverse ++ pending) others) :
    Gathered e schema collection mode txnId (fields::rest) clock pending
      ((e.storage.get collection id,e.writtenRecord collection txnId fields id)::others) := by
  have disjoint := List.disjoint_append_right.mp found.apart
  refine ⟨⟨rfl,ok.named,found.numbered⟩,?_,?_,?_,?_,?_,?_⟩
  · intro d inside
    rcases List.mem_cons.mp inside with rfl | later
    · exact ⟨valid,ok.references⟩
    · exact found.valid d later
  · intro p inside
    rcases List.mem_cons.mp inside with rfl | later
    · rfl
    · exact found.made p later
  · intro isInsert p inside
    rcases List.mem_cons.mp inside with rfl | later
    · exact ok.absent isInsert
    · exact found.absent isInsert p later
  · intro p inside
    rcases List.mem_cons.mp inside with rfl | later
    · exact ⟨idx,ok.indexed,ok.unique⟩
    · exact found.unique p later
  · refine List.nodup_append'.mpr ⟨ok.fresh.1,found.fresh,?_⟩
    intro k own other
    exact disjoint.1 other (by simpa using own)
  · exact List.disjoint_append_left.mpr ⟨ok.fresh.2,disjoint.2⟩

theorem prepareWrites_ok_iff {docs : List Document} :
    (e.prepareWrites schema collection mode txnId docs clock pending).2 = .ok prepared ↔
      Gathered e schema collection mode txnId docs clock pending prepared := by
  induction docs generalizing clock pending prepared with
  | nil => simp [prepareWrites,Gathered.nil_iff,eq_comm]
  | cons fields rest ih =>
    simp only [prepareWrites]
    constructor
    · intro gathered
      split at gathered
      · cases gathered
      rename_i valid
      split at gathered
      · cases gathered
      · cases gathered
      · rename_i p next first
        obtain ⟨id,idx,ok,rfl,rfl⟩ := prepareWrite_ok_iff.mp first
        cases tail : (e.prepareWrites schema collection mode txnId rest (clock + 1)
            ((pendingKeys schema (e.writtenRecord collection txnId fields id)).reverse ++ pending)).2 with
        | err err | panic m => simp [tail,Outcome.map] at gathered
        | ok others =>
          simp only [tail,Outcome.map,Outcome.ok.injEq] at gathered
          exact gathered ▸ .cons valid ok (ih.mp tail)
    · intro gathered
      obtain ⟨id,idx,others,valid,ok,rfl,found⟩ := gathered.uncons
      have first := prepareWrite_ok_iff.mpr ⟨id,idx,ok,rfl,rfl⟩
      simp only [valid,first,ih.mpr found,Outcome.map]

theorem prepareWrites_panic {list : List Document}
    (panicked : (e.prepareWrites schema collection mode txnId list clock pending).2 = .panic m) :
    e.indexes[collection]? = none := by
  induction list generalizing clock pending with
  | nil => cases panicked
  | cons fields rest ih =>
    simp only [prepareWrites] at panicked
    split at panicked
    · cases panicked
    split at panicked
    · cases panicked
    · rename_i first
      exact prepareWrite_panic first
    · rename_i p next first
      cases tail : (e.prepareWrites schema collection mode txnId rest (clock + 1) next).2 with
      | err err | ok others => simp [tail,Outcome.map] at panicked
      | panic m' => exact ih (by rw [tail,← panicked,tail]; rfl)

end

theorem prepareWrites_clock (e : Engine) (schema : CollectionSchema) (collection : String) (mode : WriteMode)
    (txnId : TxnId) (list : List Document) (clock : Nat) (pending : List String) :
    clock ≤ (e.prepareWrites schema collection mode txnId list clock pending).1 := by
  induction list generalizing clock pending with
  | nil => exact Nat.le_refl clock
  | cons fields rest ih =>
    simp only [prepareWrites]
    split
    · exact Nat.le_refl clock
    · split
      · exact Nat.le_succ clock
      · exact Nat.le_succ clock
      · exact Nat.le_trans (Nat.le_succ clock) (ih _ _)

structure Frame (e e' : Engine) : Prop where
  txns : e'.txns = e.txns
  timeout : e'.transactionTimeoutSecs = e.transactionTimeoutSecs
  retained : e'.gcMinRetainedVersions = e.gcMinRetainedVersions
  clock : e.clock ≤ e'.clock

inductive Ends {α : Type} (e : Engine) (txnId : TxnId) (made : List Change → Prop) (missing : Prop) :
    Engine × Outcome α → Prop where
  | committed (e' : Engine) (a : α) (changes : List Change) (effect : Effect e e' txnId changes)
      (frame : Frame e e') (how : made changes) : Ends e txnId made missing (e',.ok a)
  | refused (e' : Engine) (err : Error) (effect : Effect e e' txnId []) (frame : Frame e e') :
      Ends e txnId made missing (e',.err err)
  | panicked (e' : Engine) (m : String) (why : missing) : Ends e txnId made missing (e',.panic m)

theorem Effect.quiet {e' : Engine} (txnId : TxnId) (storage : e'.storage = e.storage)
    (indexes : e'.indexes = e.indexes) : Effect e e' txnId [] := by
  refine ⟨by simpa using storage,?_⟩
  intro c
  have same : (fun idx => replaceAll (e.storage.get c) idx (writesTo [] c)) = id := rfl
  rw [indexes,same,Option.map_id,id]

theorem commitTo_ends (e : Engine) (io : Result Unit) (collection : String) (txnId : TxnId)
    (changes : List Change) (placed : ∀ ch ∈ changes, ch.key.collection = collection) (batch : Batch)
    (updates : List Update) (ops : batch = ⟨txnId,changes.map op⟩)
    (held : updates = changes.map (update e.storage)) {made : List Change → Prop} {missing : Prop}
    (how : made changes) (why : e.indexes[collection]? = none → missing) :
    Ends e txnId made missing (e.commitTo io collection batch updates) := by
  subst ops held
  have writes : writesTo changes collection = changes.map (fun ch => (ch.key.id,ch.new)) := by
    have all : changes.filter (fun ch => ch.key.collection == collection) = changes :=
      List.filter_eq_self.mpr (fun ch inside => beq_iff_eq.mpr (placed ch inside))
    rw [writesTo,all]
  have elsewhere (c : String) (other : c ≠ collection) : writesTo changes c = [] := by
    rw [writesTo,List.filter_eq_nil_iff.mpr,List.map_nil]
    intro ch inside same
    exact other (beq_iff_eq.mp same ▸ placed ch inside)
  have folded (idx : CollectionIndexes) :
      (changes.map (update e.storage)).foldl (fun idx u => idx.replace u.1 u.2) idx =
        replaceAll (e.storage.get collection) idx (writesTo changes collection) := by
    rw [writes,replaceAll,List.foldl_map,List.foldl_map]
    refine List.foldl_ext _ _ _ ?_
    intro idx ch inside
    rw [update,placed ch inside]
  have committed (storage : Storage)
      (stored : storage = if changes.isEmpty then e.storage
        else e.storage.applied (e.storage.lastCommitTs + 1) ⟨txnId,changes.map op⟩)
      (idx : CollectionIndexes) (found : e.indexes[collection]? = some idx) :
      Ends e txnId made missing
        ({ e with storage := storage
                  indexes := e.indexes.insert collection ((changes.map (update e.storage)).foldl
                    (fun idx u => idx.replace u.1 u.2) idx) },Outcome.ok ()) := by
    refine .committed _ _ changes ⟨stored,?_⟩ ⟨rfl,rfl,rfl,Nat.le_refl _⟩ how
    intro c
    rw [TreeMap.getElem?_insert_eq,folded]
    by_cases same : collection = c
    · subst same
      simp [found]
    · rw [if_neg same,elsewhere c (Ne.symm same)]
      cases e.indexes[c]? <;> rfl
  unfold commitTo Storage.commitBatch
  by_cases empty : changes.isEmpty
  · have none : (changes.map op).isEmpty = true := by simpa using empty
    simp only [none,if_true]
    cases found : e.indexes[collection]? with
    | none => exact .panicked _ _ (why found)
    | some idx => exact committed e.storage (by simp [empty]) idx found
  · have some : (changes.map op).isEmpty = false := by simpa using empty
    simp only [some,Bool.false_eq_true,if_false]
    cases io with
    | error err => exact .refused _ _ (.quiet txnId rfl rfl) ⟨rfl,rfl,rfl,Nat.le_refl _⟩
    | ok u =>
      cases found : e.indexes[collection]? with
      | none => exact .panicked _ _ (why found)
      | some idx => exact committed _ (by simp [empty]) idx found

section
variable {α β : Type} {e' : Engine} {made made' : List Change → Prop} {missing : Prop} {p : Engine × Outcome α}

theorem Ends.of_map {f : α → β} (ends : Ends e txnId made missing (p.1,p.2.map f)) : Ends e txnId made missing p := by
  obtain ⟨e',_ | _ | _⟩ := p
  · obtain ⟨_,_,changes,effect,frame,how⟩ := ends
    exact .committed e' _ changes effect frame how
  · cases ends with
    | refused _ _ effect frame => exact .refused e' _ effect frame
  · cases ends with
    | panicked _ _ why => exact .panicked e' _ why

theorem Ends.ticked (clock : Nat) (later : e.clock ≤ clock)
    (ends : Ends { e with clock := clock } txnId made missing p) : Ends e txnId made missing p := by
  have frames {e' : Engine} (frame : Frame { e with clock := clock } e') : Frame e e' :=
    { frame with clock := Nat.le_trans later frame.clock }
  cases ends with
  | committed e' a changes effect frame how =>
    exact .committed e' a changes ⟨effect.storage,effect.indexes⟩ (frames frame) how
  | refused e' err effect frame => exact .refused e' err ⟨effect.storage,effect.indexes⟩ (frames frame)
  | panicked e' m why => exact .panicked e' m why

omit [Host] in
theorem Frame.refl (e : Engine) : Frame e e := ⟨rfl,rfl,rfl,Nat.le_refl _⟩

theorem Ends.unchanged (err : Error) : Ends e txnId made missing (e,(.err err : Outcome α)) :=
  .refused e err (.quiet txnId rfl rfl) (.refl e)

end

def Written (e : Engine) (schema : CollectionSchema) (docs : List Document) (changes : List Change) : Prop :=
  ∃ records, changes = records.map put ∧ Numbered schema e.clock docs records ∧
    (records.flatMap (pendingKeys schema)).Nodup

def updatedRecord (collection : String) (set : Document) (txnId : TxnId) (old : Record) : Record :=
  ⟨old.id,collection,old.fields.merge set,old.version + 1,txnId⟩

def Made (e : Engine) (m : Mutation) (changes : List Change) : Prop :=
  ∃ schema, e.storage.schemas[m.collection]? = some schema ∧
    (∀ ch ∈ changes, ch.key.collection = m.collection ∧ Checked e ch) ∧
    match m with
    | .insert _ fields => Written e schema [fields] changes
    | .upsert _ fields => Written e schema [fields] changes
    | .bulkInsert _ docs => Written e schema docs changes
    | .update c filter set =>
      changes = (e.targets c filter).map (fun old => .put (updatedRecord c set 0 old))
    | .delete c filter => changes = (e.targets c filter).map (fun r => .delete c r.id)

def Unindexed (e : Engine) (c : String) : Prop :=
  ∃ schema, e.storage.schemas[c]? = some schema ∧ e.indexes[c]? = none

section
variable {docs : List Document}
  (facts : Gathered e schema c mode txnId docs clock pending prepared)
include facts

theorem Gathered.held {p : Option Record × Record}
    (member : p ∈ prepared) : p.1 = e.storage.get c p.2.id ∧ p.2.collection = c := by
  have made := facts.made p member
  exact ⟨congrArg Prod.fst made,(congrArg Record.collection (congrArg Prod.snd made)).trans rfl⟩

theorem Gathered.checked : ∀ ch ∈ (prepared.map (·.2)).map put, ch.key.collection = c ∧ Checked e ch := by
  intro ch inside
  obtain ⟨p,member,rfl⟩ := List.mem_map.mp (List.map_map ▸ inside)
  obtain ⟨held,placed⟩ := facts.held member
  refine ⟨placed,?_⟩
  intro r isNew idx indexed
  cases isNew
  simp only [Function.comp_apply,put] at indexed ⊢
  rw [placed] at indexed ⊢
  obtain ⟨idx',indexed',unique⟩ := facts.unique p member
  obtain rfl := Option.some.inj (indexed.symm.trans indexed')
  rw [← held]
  exact unique

end

section
variable {old : Record}

theorem prepareUpdate_ok_iff {p : Record × Record} : e.prepareUpdate schema c set txnId old = .ok p ↔
      p = (old,updatedRecord c set txnId old) ∧ schema.validateRecord (old.fields.merge set) = .ok () ∧
        e.referentialCheck schema (old.fields.merge set) = .ok () ∧
        ∃ idx, e.indexes[c]? = some idx ∧ idx.checkUnique (updatedRecord c set txnId old) (some old.id) = .ok () := by
  constructor
  · intro prepared
    unfold prepareUpdate at prepared
    simp only at prepared
    split at prepared
    · cases prepared
    rename_i valid
    split at prepared
    · cases prepared
    rename_i references
    split at prepared
    · cases prepared
    rename_i idx indexed
    split at prepared
    · cases prepared
    · rename_i unique
      cases prepared
      exact ⟨rfl,valid,references,idx,indexed,unique⟩
  · rintro ⟨rfl,valid,references,idx,indexed,unique⟩
    simp only [updatedRecord] at unique
    simp only [prepareUpdate,valid,references,indexed,unique,updatedRecord]

theorem prepareUpdate_panic
    (panicked : e.prepareUpdate schema c set txnId old = .panic m) : e.indexes[c]? = none := by
  unfold prepareUpdate at panicked
  simp only at panicked
  split at panicked
  · cases panicked
  split at panicked
  · cases panicked
  · split at panicked
    · assumption
    · split at panicked <;> cases panicked

end

theorem mem_targets (ok : e.storage.WellFormed) {r : Record}
    (inside : r ∈ e.targets c filter) : e.storage.get c r.id = some r :=
  (ok.mem_scan_iff c r).mp (List.mem_filter.mp inside).1

theorem collect_updates {olds : List Record} {prepared : List (Record × Record)}
    (gathered : Outcome.collect (e.prepareUpdate schema c set txnId) olds = .ok prepared) :
    prepared = olds.map (fun old => (old,updatedRecord c set txnId old)) := by
  have each := (Outcome.collect_ok_iff _ _ _).mp gathered
  clear gathered
  induction each with
  | nil => rfl
  | cons first others ih => rw [(prepareUpdate_ok_iff.mp first).1,ih,List.map_cons]

theorem updates_checked (ok : e.storage.WellFormed) {prepared : List (Record × Record)}
    (gathered : Outcome.collect (e.prepareUpdate schema c set txnId) (e.targets c filter) = .ok prepared) :
    ∀ ch ∈ (e.targets c filter).map (fun old => put (updatedRecord c set txnId old)),
      ch.key.collection = c ∧ Checked e ch := by
  have each := (Outcome.collect_ok_iff _ _ _).mp gathered
  obtain rfl := collect_updates gathered
  intro ch inside
  obtain ⟨old,member,rfl⟩ := List.mem_map.mp inside
  refine ⟨rfl,?_⟩
  intro r isNew idx held
  cases isNew
  have passed := (List.forall₂_map_right_iff.mp each)
  obtain ⟨_,_,_,idx',held',unique⟩ := prepareUpdate_ok_iff.mp (List.forall₂_same.mp passed old member)
  obtain rfl := Option.some.inj (held.symm.trans held')
  simp only [put,updatedRecord]
  rw [mem_targets ok member]
  exact unique

end Engine

end AuraDb
