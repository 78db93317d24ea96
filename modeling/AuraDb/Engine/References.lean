import AuraDb.Engine.System

/-! Referential integrity. A write checks that its own links resolve, and a delete that no live record links to
what it removes. Both look at the committed state, one key at a time, and the second recognises a link by the
stored primary key. -/
namespace AuraDb
open Library Std
variable {changes : List Change} {m : Mutation}

def Relationship.linkKeys (rel : Relationship) (value : Option Value) : List Value :=
  match rel.cardinality, value with
  | _, none => []
  | _, some .null => []
  | .toOne, some v => [v]
  | .toMany, some (.array items) => items
  | .toMany, some _ => []

namespace Engine
variable {e e' : Engine} {schema : CollectionSchema} {rel : Relationship} {c : String} {r target : Record}
  {io : Result Unit} {pk : Value}

def storedKey (e : Engine) (c : String) (r : Record) : Option Value :=
  (e.storage.getSchema c).bind (fun schema => schema.primaryKey.bind (fun pk => r.fields.get pk.name))

theorem inboundLinkCheck_unseen (passed : e.inboundLinkCheck c target = .ok ())
    (stored : e.storedKey c target = some pk) (known : e.storage.schemas[schema.name]? = some schema)
    (declared : rel ∈ schema.relationships) (restricts : rel.onDelete = .restrict) (same : rel.target = c)
    (isLive : r ∈ e.storage.scan schema.name) : refersTo (r.get rel.name) pk = false := by
  unfold inboundLinkCheck at passed
  rw [← storedKey,stored] at passed
  have listed : schema ∈ e.storage.schemas.toList.map Prod.snd :=
    List.mem_map.mpr ⟨(schema.name,schema),ExtTreeMap.mem_toList_iff_getElem?_eq_some.mpr known,rfl⟩
  have ofSchema := (checkAll_ok_iff _ _).mp passed schema listed
  have ofRel := (checkAll_ok_iff _ _).mp ofSchema rel declared
  rw [if_neg (by simp [same,restricts])] at ofRel
  have ofRecord := (checkAll_ok_iff _ _).mp ofRel r isLive
  split at ofRecord
  · cases ofRecord
  · rename_i unseen
    simpa using unseen

theorem written_or_kept (live : Live) (changes : List Change) (k : Key) :
    (∃ ch ∈ changes, ch.key = k ∧ Live.rewrite live (Change.writesTo changes k.collection) k.id = ch.new) ∨
      Live.rewrite live (Change.writesTo changes k.collection) k.id = live k.id := by
  rw [Live.rewrite_apply]
  cases found : (Change.writesTo changes k.collection).reverse.find? (fun w => w.1 == k.id) with
  | none => exact .inr rfl
  | some w =>
    obtain ⟨ch,inside,collection,rfl⟩ := Change.mem_writesTo (List.mem_reverse.mp (List.mem_of_find?_eq_some found))
    have id : ch.key.id = k.id := by simpa using List.find?_some found
    have same : ch.key = k := calc ch.key = ⟨ch.key.collection,ch.key.id⟩ := rfl
        _ = ⟨k.collection,k.id⟩ := by rw [collection,id]
    exact .inl ⟨ch,inside,same,rfl⟩

variable [Host] {fields : Document} {docs : List Document} {filter : Option Filter} {k : Key}

/-- The fields hold a key of a relationship that restricts deletes, and the key resolves to this place. -/
structure LinksTo (e : Engine) (c : String) (fields : Document) (rel : Relationship) (k : Key) : Prop where
  declared : ∃ schema, e.storage.schemas[c]? = some schema ∧ rel ∈ schema.relationships
  restricts : rel.onDelete = .restrict
  target : rel.target = k.collection
  held : ∃ key ∈ rel.linkKeys (fields.get rel.name), deriveId rel.target key = k.id

def Integrity (e : Engine) : Prop :=
  ∀ c i r, e.storage.get c i = some r → ∀ rel k, e.LinksTo c r.fields rel k →
    (e.storage.get k.collection k.id).isSome = true

/-- The links of a put resolve, and no live record is seen to link to what a delete removes. -/
def Referenced (e : Engine) (ch : Change) : Prop :=
  match ch.new with
  | some r => ∃ schema, e.storage.schemas[ch.key.collection]? = some schema ∧
      e.referentialCheck schema r.fields = .ok ()
  | none => ∀ r, e.storage.get ch.key.collection ch.key.id = some r →
      e.inboundLinkCheck ch.key.collection r = .ok ()

theorem referentialCheck_resolves (passed : e.referentialCheck schema fields = .ok ())
    (declared : rel ∈ schema.relationships) {key : Value} (held : key ∈ rel.linkKeys (fields.get rel.name)) :
    (e.resolveLink rel.target key).isSome = true := by
  have checked := (checkAll_ok_iff _ _).mp passed rel declared
  have resolves (key : Value) (linked : e.linkCheck rel key = .ok ()) : (e.resolveLink rel.target key).isSome = true := by
    unfold linkCheck at linked
    split at linked
    · cases linked
    · rename_i present
      simpa [Option.isSome_iff_ne_none] using present
  cases value : fields.get rel.name with
  | none => simp [value,Relationship.linkKeys] at held
  | some v =>
    simp only [value] at checked
    cases many : rel.cardinality with
    | toOne =>
      cases v <;> simp_all [Relationship.linkKeys]
    | toMany =>
      cases v with
      | array items =>
        simp only [many] at checked
        simp only [value,Relationship.linkKeys,many] at held
        exact resolves key ((checkAll_ok_iff _ _).mp checked key held)
      | _ => simp_all [Relationship.linkKeys]

theorem writeRecords_documents {mode : WriteMode} (found : e.storage.schemas[c]? = some schema)
    (changed : (e.writeRecords io c docs mode 0).1.storage ≠ e.storage) : ∀ d ∈ docs, DocOk e schema d := by
  unfold writeRecords at changed
  rw [(schemaFor_ok_iff e c schema).mpr found] at changed
  simp only at changed
  split at changed
  · exact absurd rfl changed
  · exact absurd rfl changed
  · rename_i prepared gathered
    exact (prepareWrites_ok_iff.mp gathered).valid

theorem updateRecords_documents {set : Document} (found : e.storage.schemas[c]? = some schema)
    (changed : (e.updateRecords io c filter set 0).1.storage ≠ e.storage) :
    ∀ old ∈ e.targets c filter, e.referentialCheck schema (old.fields.merge set) = .ok () := by
  unfold updateRecords at changed
  rw [(schemaFor_ok_iff e c schema).mpr found] at changed
  simp only at changed
  split at changed
  · exact absurd rfl changed
  split at changed
  · exact absurd rfl changed
  · exact absurd rfl changed
  · rename_i prepared gathered
    intro old member
    have each := (Outcome.collect_ok_iff _ _ _).mp gathered
    obtain rfl := collect_updates gathered
    have passed := List.forall₂_same.mp (List.forall₂_map_right_iff.mp each) old member
    exact (prepareUpdate_ok_iff.mp passed).2.2.1

theorem deleteRecords_unlinked (changed : (e.deleteRecords io c filter 0).1.storage ≠ e.storage) :
    ∀ r ∈ e.targets c filter, e.inboundLinkCheck c r = .ok () := by
  unfold deleteRecords at changed
  split at changed
  · exact absurd rfl changed
  simp only at changed
  split at changed
  · exact absurd rfl changed
  · rename_i passed
    exact (checkAll_ok_iff _ _).mp passed

theorem mem_of_numbered {n : Nat} {records : List Record}
    (numbered : Numbered schema n docs records) : ∀ r ∈ records, r.fields ∈ docs := by
  induction docs generalizing n records with
  | nil => cases records <;> simp_all [Numbered]
  | cons d docs ih =>
    cases records with
    | nil => simp
    | cons r rest =>
      obtain ⟨rfl,-,others⟩ := numbered
      intro r' inside
      rcases List.mem_cons.mp inside with rfl | later
      · simp
      · exact List.mem_cons_of_mem _ (ih others r' later)

theorem applyMutation_referenced (ok : e.storage.WellFormed)
    (changed : (e.applyMutation io m).1.storage ≠ e.storage) (made : Made e m changes) :
    ∀ ch ∈ changes, Referenced e ch := by
  have wrote : (e.mutate io m).1.storage ≠ e.storage := by
    unfold applyMutation at changed
    split at changed
    · rename_i result done
      rw [done]
      exact changed
    · rename_i e' other _ done
      rw [done]
      exact changed
  obtain ⟨schema,found,placed,how⟩ := made
  have written {docs : List Document} (written : Written e schema docs changes)
      (valid : ∀ d ∈ docs, DocOk e schema d) : ∀ ch ∈ changes, Referenced e ch := by
    obtain ⟨records,rfl,numbered,-⟩ := written
    intro ch inside
    have collection := (placed ch inside).1
    obtain ⟨r,member,rfl⟩ := List.mem_map.mp inside
    exact ⟨schema,by rw [collection]; exact found,(valid r.fields (mem_of_numbered numbered r member)).2⟩
  cases m with
  | insert c fields | upsert c fields | bulkInsert c docs => exact written how (writeRecords_documents found wrote)
  | update c filter set =>
    intro ch inside
    rw [show changes = _ from how] at inside
    obtain ⟨old,member,rfl⟩ := List.mem_map.mp inside
    exact ⟨schema,found,updateRecords_documents found wrote old member⟩
  | delete c filter =>
    intro ch inside
    rw [show changes = _ from how] at inside
    obtain ⟨r,member,rfl⟩ := List.mem_map.mp inside
    intro r' held
    obtain rfl : r = r' := Option.some.inj ((mem_targets ok member).symm.trans held)
    exact deleteRecords_unlinked wrote r member

theorem stagedChanges_referenced {txn : Transaction} (admissible : Admissible e txn) :
    ∀ ch ∈ e.stagedChanges txn, Referenced e ch := by
  intro ch inside
  obtain ⟨⟨k,op⟩,member,rfl⟩ := List.mem_map.mp inside
  have passed := (admissible k op ((txn.mem_stagedOps k op).mp member)).2
  cases op with
  | put r =>
    obtain ⟨schema,found,references,-⟩ := passed
    exact ⟨schema,found,references⟩
  | delete => exact passed

/-- Every link of a live record to what is deleted is recognised by the stored primary key, and no record put by
the same changes links to it. -/
def Guarded (e : Engine) (changes : List Change) : Prop :=
  ∀ gone ∈ changes, gone.new = none → ∀ target, e.storage.get gone.key.collection gone.key.id = some target →
    (∀ c i r, e.storage.get c i = some r → ∀ rel, e.LinksTo c r.fields rel gone.key →
      ∃ pk, e.storedKey gone.key.collection target = some pk ∧ refersTo (r.get rel.name) pk = true) ∧
    ∀ ch ∈ changes, ∀ r, ch.new = some r → ∀ rel, ¬e.LinksTo ch.key.collection r.fields rel gone.key

theorem LinksTo.congr (link : e.LinksTo c fields rel k)
    (same : e'.storage.schemas = e.storage.schemas) : e'.LinksTo c fields rel k :=
  { link with declared := by rw [same]; exact link.declared }

theorem Referenced.resolves {ch : Change} (checked : Referenced e ch) (isNew : ch.new = some r)
    (link : e.LinksTo ch.key.collection r.fields rel k) : (e.storage.get k.collection k.id).isSome = true := by
  unfold Referenced at checked
  simp only [isNew] at checked
  obtain ⟨schema,found,passed⟩ := checked
  obtain ⟨schema',found',declared⟩ := link.declared
  obtain rfl : schema = schema' := Option.some.inj (found.symm.trans found')
  obtain ⟨key,held,place⟩ := link.held
  have resolved := referentialCheck_resolves passed declared held
  rw [resolveLink,place,link.target] at resolved
  exact resolved

theorem Referenced.unlinked (named : ∀ (c : String) schema, e.storage.schemas[c]? = some schema → schema.name = c)
    {gone : Change} (checked : Referenced e gone) (isNew : gone.new = none)
    (held : e.storage.get gone.key.collection gone.key.id = some target) {i : RecordId}
    (isLive : e.storage.get c i = some r) (link : e.LinksTo c r.fields rel gone.key)
    (stored : e.storedKey gone.key.collection target = some pk) : refersTo (r.get rel.name) pk = false := by
  unfold Referenced at checked
  simp only [isNew] at checked
  obtain ⟨schema,found,declared⟩ := link.declared
  obtain rfl := named c schema found
  exact inboundLinkCheck_unseen (checked target held) stored found declared link.restricts link.target
    ((Storage.mem_scan _ _ _).mpr ⟨i,isLive⟩)

theorem Integrity.effect (integrity : Integrity e) (ok : e.storage.WellFormed)
    (named : ∀ (c : String) schema, e.storage.schemas[c]? = some schema → schema.name = c) {txnId : TxnId}
    (effect : Effect e e' txnId changes) (checked : ∀ ch ∈ changes, Referenced e ch)
    (guarded : Guarded e changes) : Integrity e' := by
  intro c i r isLive rel k link
  have before := link.congr effect.schemas.symm
  rw [effect.get ok k.collection]
  rcases written_or_kept (e.storage.get k.collection) changes k with ⟨gone,inside,rfl,left⟩ | kept
  · rw [left]
    cases isNew : gone.new with
    | some r' => rfl
    | none =>
      -- the record that the link resolved to is deleted, so the link was checked or excluded
      exfalso
      rw [effect.get ok c] at isLive
      rcases written_or_kept (e.storage.get c) changes ⟨c,i⟩ with ⟨ch,member,same,new⟩ | old
      · have put : ch.new = some r := new.symm.trans isLive
        obtain rfl : ch.key.collection = c := congrArg Key.collection same
        obtain ⟨target,held⟩ := Option.isSome_iff_exists.mp ((checked ch member).resolves put before)
        exact (guarded gone inside isNew target held).2 ch member r put rel before
      · have wasLive : e.storage.get c i = some r := old.symm.trans isLive
        obtain ⟨target,held⟩ := Option.isSome_iff_exists.mp (integrity c i r wasLive rel gone.key before)
        obtain ⟨pk,stored,seen⟩ := (guarded gone inside isNew target held).1 c i r wasLive rel before
        simp [(checked gone inside).unlinked named isNew held wasLive before stored] at seen
  · rw [kept]
    rw [effect.get ok c] at isLive
    rcases written_or_kept (e.storage.get c) changes ⟨c,i⟩ with ⟨ch,member,same,new⟩ | old
    · obtain rfl : ch.key.collection = c := congrArg Key.collection same
      exact (checked ch member).resolves (new.symm.trans isLive) before
    · exact integrity c i r (old.symm.trans isLive) rel k before

end Engine

namespace System
section
variable [Host] {s₀ s : System} {shown : List Committed}

def LinksGuarded (s : System) : Act → Prop
  | .mutate (.delete c filter) _ => s.engine.Guarded ((s.engine.targets c filter).map (fun r => .delete c r.id))
  | .commit id _ => ∀ txn, s.handles[id]? = some txn → s.engine.Guarded (s.engine.stagedChanges txn)
  | _ => True

private theorem LinksGuarded.made {io : Result Unit} (guarded : LinksGuarded s (.mutate m io))
    (made : Engine.Made s.engine m changes) : s.engine.Guarded changes := by
  have puts (all : ∀ ch ∈ changes, ch.new.isSome = true) : s.engine.Guarded changes := by
    intro gone inside isNew
    have := all gone inside
    simp [isNew] at this
  have written {schema : CollectionSchema} {docs : List Document} (written : Engine.Written s.engine schema docs changes) :
      s.engine.Guarded changes := by
    obtain ⟨records,rfl,-⟩ := written
    apply puts
    intro ch inside
    obtain ⟨r,-,rfl⟩ := List.mem_map.mp inside
    rfl
  obtain ⟨schema,-,-,how⟩ := made
  cases m with
  | insert c fields | upsert c fields | bulkInsert c docs => exact written how
  | update c filter set =>
    apply puts
    intro ch inside
    rw [show changes = _ from how] at inside
    obtain ⟨old,-,rfl⟩ := List.mem_map.mp inside
    rfl
  | delete c filter =>
    rw [show changes = _ from how]
    exact guarded

private theorem integrity_step {s' : System} {a : Act} {now : List Committed} (tracked : Tracked s)
    (integrity : s.engine.Integrity)
    (named : ∀ (c : String) schema, s.engine.storage.schemas[c]? = some schema → schema.name = c)
    (guarded : LinksGuarded s a) (taken : step s a = some (s',now)) (stepped : Stepped s a s' now) :
    s'.engine.Integrity := by
  have ok := tracked.wellFormed
  have unchanged (schemas : s'.engine.storage.schemas = s.engine.storage.schemas)
      (get : ∀ c i, s'.engine.storage.get c i = s.engine.storage.get c i) : s'.engine.Integrity := by
    intro c i r isLive rel k link
    rw [get] at isLive ⊢
    exact integrity c i r isLive rel k (link.congr schemas.symm)
  cases stepped.stored with
  | quiet storage indexes => exact unchanged (by rw [storage]) (fun _ _ => by rw [storage])
  | pruned rewritten isGc storage indexes =>
    refine unchanged (by rw [storage]; rfl) (fun c i => ?_)
    rw [storage]
    exact Storage.get_pruned _ _ _ c i (Nat.lt_of_lt_of_le Nat.one_pos (Nat.le_max_right _ _))
  | mutated m io isMutate changes some effect made =>
    subst isMutate
    have moved : s'.engine.storage ≠ s.engine.storage := by
      intro same
      have level := congrArg Storage.lastCommitTs same
      rw [effect.storage,if_neg (by simpa using some)] at level
      exact absurd level (Nat.succ_ne_self _)
    have result : (s.engine.applyMutation io m).1 = s'.engine := by
      simp only [step] at taken
      split at taken
      · cases taken
      · rename_i e' out _ done
        cases taken
        rw [done]
    exact integrity.effect ok named effect (Engine.applyMutation_referenced ok (result ▸ moved) made) (guarded.made made)
  | committed id io isCommit txn held some inTime effect admissible =>
    subst isCommit
    exact integrity.effect ok named effect (Engine.stagedChanges_referenced admissible) (guarded txn held)

/-- Referential integrity: links that restrict deletes and resolve at first resolve along every run whose
deletes are guarded. -/
theorem referential_integrity (started : Started s₀) (initially : s₀.engine.Integrity)
    (run : Run step LinksGuarded s₀ shown s) : s.engine.Integrity := by
  have named : ∀ (c : String) schema, s₀.engine.storage.schemas[c]? = some schema → schema.name = c := by
    obtain ⟨-,storage,options,stats,-,named,opened⟩ := started
    rw [Engine.storage_openWith opened]
    exact named
  have facts := Run.along run started.tracked (fun _ t => t.engine.storage.schemas = s₀.engine.storage.schemas ∧
      t.engine.Integrity) ⟨rfl,initially⟩ ?_
  · exact facts.1.2
  · rintro shown s a s' now tracked ⟨schemas,integrity⟩ guarded taken stepped
    exact ⟨stepped.stored.schemas.trans schemas,
      integrity_step tracked integrity (by rw [schemas]; exact named) guarded taken stepped⟩

end

def tasks : CollectionSchema :=
  ⟨"tasks",[⟨"id",.string,true,false,false,false⟩],[⟨"parent","tasks",.toOne,.restrict⟩],[]⟩

/-- Nothing links to what the act deletes. -/
def unlinked [Host] (s : System) : Act → Bool
  | .mutate (.delete c filter) _ => (s.engine.targets c filter).all fun gone =>
      s.engine.storage.schemas.toList.all fun p => (s.engine.storage.scan p.1).all fun r => p.2.relationships.all fun rel =>
        (rel.linkKeys (r.fields.get rel.name)).all fun key => deriveId rel.target key != gone.id
  | .commit .. => false
  | _ => true

theorem unlinked_sound [Host] (s : System) (a : Act) (passed : unlinked s a = true) : LinksGuarded s a := by
  cases a with
  | commit => cases passed
  | mutate m =>
    cases m with
    | delete c filter =>
      simp only [unlinked,List.all_eq_true,bne_iff_ne] at passed
      intro gone inside isNew target held
      obtain ⟨old,picked,rfl⟩ := List.mem_map.mp inside
      refine ⟨?_,?_⟩
      · intro c' i r isLive rel link
        obtain ⟨⟨schema,declared,related⟩,-,-,key,linked,same⟩ := link
        refine absurd same (passed old picked (c',schema) ?_ r ?_ rel related key linked)
        · exact ExtTreeMap.mem_toList_iff_getElem?_eq_some.mpr declared
        · exact (s.engine.storage.mem_scan c' r).mpr ⟨i,isLive⟩
      · intro ch member r isPut
        obtain ⟨other,-,rfl⟩ := List.mem_map.mp member
        cases isPut
    | _ => trivial
  | _ => trivial

theorem referential_integrity_tasks : ∃ s shown, @Runs plainHost (fresh tasks ⟨60,1⟩) shown s ∧ shown.length = 4 ∧
    (s.engine.storage.get "tasks" (@deriveId plainHost "tasks" (.text "c"))).isNone = true ∧
    (s.engine.storage.get "tasks" (@deriveId plainHost "tasks" (.text "b"))).any
      (fun r => (r.fields.get "parent").isSome) = true ∧ @Engine.Integrity plainHost s.engine := by
  have empty : @Engine.Integrity plainHost (fresh tasks ⟨60,1⟩).engine := by
    intro c i r isLive
    cases isLive
  obtain ⟨s,shown,run,written,gone,linked⟩ := @Run.exists_of_guarded _ _ _ (@step plainHost) (@LinksGuarded plainHost)
    [.mutate (.insert "tasks" [("id",.text "a")]) (.ok ()),
      .mutate (.insert "tasks" [("id",.text "b"),("parent",.text "a")]) (.ok ()),
      .mutate (.insert "tasks" [("id",.text "c"),("parent",.text "b")]) (.ok ()),
      .mutate (.delete "tasks" (some (.compare "id" .eq (.text "c")))) (.ok ())] (fresh tasks ⟨60,1⟩) (@unlinked plainHost)
    (fun s shown => shown.length = 4 ∧
      (s.engine.storage.get "tasks" (@deriveId plainHost "tasks" (.text "c"))).isNone = true ∧
      (s.engine.storage.get "tasks" (@deriveId plainHost "tasks" (.text "b"))).any
        (fun r => (r.fields.get "parent").isSome) = true) (by decide +kernel) (fun s a _ => @unlinked_sound plainHost s a)
  exact ⟨s,shown,run.mono (fun _ _ _ => trivial),written,gone,linked,
    @referential_integrity plainHost _ s shown (@fresh_started plainHost tasks ⟨60,1⟩) empty run⟩

abbrev Orphaned (e : Engine) : Prop :=
  ∃ schema ∈ e.storage.schemas["tasks"]?, ∃ r ∈ e.storage.get "tasks" (@deriveId plainHost "tasks" (.text "b")),
    schema.relationships = tasks.relationships ∧ r.fields.get "parent" = some (.text "a") ∧
      e.storage.get "tasks" (@deriveId plainHost "tasks" (.text "a")) = none

private theorem dangles_of_steps (acts : List Act)
    (done : ∃ p ∈ steps (@step plainHost) (fresh tasks ⟨60,1⟩) acts, Orphaned p.1.engine) :
    ∃ s shown, Run (@step plainHost) (fun _ a => a ∈ acts) (fresh tasks ⟨60,1⟩) shown s ∧
      ¬@Engine.Integrity plainHost s.engine := by
  obtain ⟨⟨s,shown⟩,taken,schema,known,r,isLive,relationships,value,gone⟩ := done
  refine ⟨s,shown,.of_steps acts (fun _ inside _ => inside) _ s shown taken,?_⟩
  let _ := plainHost
  intro integrity
  have resolved := integrity "tasks" _ r isLive ⟨"parent","tasks",.toOne,.restrict⟩
    ⟨"tasks",@deriveId plainHost "tasks" (.text "a")⟩ ⟨⟨schema,known,by rw [relationships]; simp [tasks]⟩,rfl,rfl,
      .text "a",by rw [value]; simp [Relationship.linkKeys],rfl⟩
  rw [gone] at resolved
  cases resolved

/-- A transaction deletes a task and puts another one under it. -/
def replaceParent : List Act :=
  [.mutate (.insert "tasks" [("id",.text "a")]) (.ok ()),.begin 0 none,.stage 2 (.delete "tasks" none) 0,
    .stage 2 (.insert "tasks" [("id",.text "b"),("parent",.text "a")]) 0,.commit 2 (.ok ())]

/-- A task gets another key, under which it can be deleted although its old key is linked to. -/
def renameParent : List Act :=
  [.mutate (.insert "tasks" [("id",.text "a")]) (.ok ()),
    .mutate (.insert "tasks" [("id",.text "b"),("parent",.text "a")]) (.ok ()),.begin 0 none,
    .stage 3 (.update "tasks" (some (.compare "id" .eq (.text "a"))) [("id",.text "c")]) 0,.commit 3 (.ok ()),
    .mutate (.delete "tasks" (some (.compare "id" .eq (.text "c")))) (.ok ())]

theorem references_dangle :
    (∃ s shown, Run (@step plainHost) (fun _ a => a ∈ replaceParent) (fresh tasks ⟨60,1⟩) shown s ∧
      ¬@Engine.Integrity plainHost s.engine) ∧
    ∃ s shown, Run (@step plainHost) (fun _ a => a ∈ renameParent) (fresh tasks ⟨60,1⟩) shown s ∧
      ¬@Engine.Integrity plainHost s.engine :=
  ⟨dangles_of_steps replaceParent (by decide +kernel),
    dangles_of_steps renameParent (by decide +kernel)⟩

end System

end AuraDb
