import AuraDb.Engine.Invariant

/-! The two write paths compared: one mutation applied directly, or staged on a fresh transaction and committed.
Both come to the same records; the direct path makes checks that the other does not. -/
namespace AuraDb
open Library Std CollectionIndexes

abbrev Intent := List (RecordId × Option Document)

namespace Intent

def last (plan : Intent) (i : RecordId) : Option (Option Document) :=
  (plan.reverse.find? (fun p => p.1 == i)).map Prod.snd

theorem last_cons (p : RecordId × Option Document) (rest : Intent) (i : RecordId) :
    last (p::rest) i = (last rest i).or (if p.1 = i then some p.2 else none) := by
  simp only [last,List.reverse_cons,List.find?_append]
  cases rest.reverse.find? (fun p => p.1 == i) with
  | some q => rfl
  | none => by_cases own : p.1 = i <;> simp [own,beq_eq_false_iff_ne.mpr]

theorem mem_of_last {plan : Intent} {i : RecordId} {v : Option Document} (found : plan.last i = some v) :
    (i,v) ∈ plan := by
  obtain ⟨p,isLast,rfl⟩ := Option.map_eq_some_iff.mp found
  have own : p.1 = i := by simpa using List.find?_some isLast
  have inside : p ∈ plan := by simpa using List.mem_of_find?_eq_some isLast
  exact own ▸ inside

theorem last_isSome {plan : Intent} {p : RecordId × Option Document} (inside : p ∈ plan) :
    ∃ v, plan.last p.1 = some v := by
  have found : (plan.reverse.find? (fun q => q.1 == p.1)).isSome = true :=
    List.find?_isSome.mpr ⟨p,by simpa using inside,by simp⟩
  obtain ⟨q,isLast⟩ := Option.isSome_iff_exists.mp found
  exact ⟨q.2,by rw [last,isLast]; rfl⟩

def fieldsAfter (s : Storage) (c : String) (plan : Intent) (c' : String) (i : RecordId) : Option Document :=
  if c' = c then (plan.last i).getD ((s.get c' i).map (·.fields)) else (s.get c' i).map (·.fields)

end Intent

namespace Engine
section
variable [Host] {e e' : Engine} {schema : CollectionSchema} {c : String}

def docsIntent (schema : CollectionSchema) (docs : List Document) : Intent :=
  docs.map (fun d => ((recordIdFor schema d 0).toOption.getD 0,some d))

def intent (e : Engine) (schema : CollectionSchema) : Mutation → Intent
  | .insert _ fields => docsIntent schema [fields]
  | .upsert _ fields => docsIntent schema [fields]
  | .bulkInsert _ docs => docsIntent schema docs
  | .update c filter set => (e.targets c filter).map (fun old => (old.id,some (old.fields.merge set)))
  | .delete c filter => (e.targets c filter).map (fun old => (old.id,none))

theorem docsIntent_cons {fields : Document} {id : RecordId} (named : recordIdFor schema fields 0 = .ok id)
    (rest : List Document) : docsIntent schema (fields::rest) = (id,some fields)::docsIntent schema rest := by
  simp [docsIntent,named,Except.toOption]

variable {i : RecordId} {idx : CollectionIndexes} {m : Mutation} {txn txn' : Transaction} {plan : Intent}

theorem mem_docsIntent {docs : List Document} {v : Option Document}
    (named : ∀ d ∈ docs, ∃ i, recordIdFor schema d 0 = .ok i) (inside : (i,v) ∈ docsIntent schema docs) :
    ∃ d ∈ docs, recordIdFor schema d 0 = .ok i ∧ v = some d := by
  obtain ⟨d,member,same⟩ := List.mem_map.mp inside
  obtain ⟨id,isId⟩ := named d member
  simp only [isId,Except.toOption,Option.getD_some,Prod.mk.injEq] at same
  exact ⟨d,member,by rw [isId,same.1],same.2.symm⟩

theorem Effect.fields {txnId : TxnId} {changes : List Change} (effect : Effect e e' txnId changes)
    (ok : e.storage.WellFormed) (placed : ∀ ch ∈ changes, ch.key.collection = c) (c' : String) (i : RecordId) :
    (e'.storage.get c' i).map (·.fields) =
      Intent.fieldsAfter e.storage c (changes.map (fun ch => (ch.key.id,ch.new.map (·.fields)))) c' i := by
  rw [effect.get ok,Live.rewrite_apply,Intent.fieldsAfter]
  split
  · rename_i same
    subst same
    have all : changes.filter (fun ch => ch.key.collection == c') = changes :=
      List.filter_eq_self.mpr (fun ch inside => beq_iff_eq.mpr (placed ch inside))
    simp only [Change.writesTo,all,Intent.last,← List.map_reverse,List.find?_map]
    have same : ((fun w : IdWrite => w.1 == i) ∘ fun ch : Change => (ch.key.id,ch.new)) =
        (fun p : RecordId × Option Document => p.1 == i) ∘
          fun ch : Change => (ch.key.id,ch.new.map (·.fields)) := rfl
    rw [same]
    cases changes.reverse.find? ((fun p : RecordId × Option Document => p.1 == i) ∘
      fun ch : Change => (ch.key.id,ch.new.map (·.fields))) <;> rfl
  · rename_i other
    have none : changes.filter (fun ch => ch.key.collection == c') = [] := by
      refine List.filter_eq_nil_iff.mpr ?_
      intro ch inside same
      exact other ((beq_iff_eq.mp same).symm.trans (placed ch inside))
    simp [Change.writesTo,none]

def FreeFor (e : Engine) (c : String) (i : RecordId) (fields : Document) : Prop :=
  ∀ idx, e.indexes[c]? = some idx →
    idx.checkUnique ⟨i,c,fields,0,0⟩ ((e.storage.get c i).map (·.id)) = .ok ()

theorem FreeFor.check {fields : Document} (indexed : e.indexes[c]? = some idx) (r : Record)
    (isFields : r.fields = fields) (isId : r.id = i) :
    FreeFor e c i fields ↔ idx.checkUnique r ((e.storage.get c i).map (·.id)) = .ok () := by
  rw [checkUnique_congr idx r ⟨i,c,fields,0,0⟩ _ isFields isId]
  constructor
  · intro free
    exact free idx indexed
  · intro free idx' indexed'
    rw [indexed] at indexed'
    cases indexed'
    exact free

def DocsOk (e : Engine) (schema : CollectionSchema) (docs : List Document) : Prop :=
  ∀ d ∈ docs, DocOk e schema d ∧ ∃ i, recordIdFor schema d 0 = .ok i

/-- What the direct write of documents checks besides: an insert finds the key absent, and no unique value is
taken twice. -/
def DirectDocs (e : Engine) (schema : CollectionSchema) (c : String) (mode : WriteMode) (docs : List Document) : Prop :=
  (∀ d ∈ docs, ∀ i, recordIdFor schema d 0 = .ok i →
    (mode = .insert → e.storage.get c i = none) ∧ FreeFor e c i d) ∧
  (docs.flatMap (fun d => pendingKeys schema ⟨0,c,d,0,0⟩)).Nodup

theorem gathered_iff (keyed : schema.primaryKey.isSome) (indexed : e.indexes[c]? = some idx) (mode : WriteMode)
    (docs : List Document) (clock : Nat) : (∃ prepared, Gathered e schema c mode 0 docs clock [] prepared) ↔
      DocsOk e schema docs ∧ DirectDocs e schema c mode docs := by
  constructor
  · rintro ⟨prepared,gathered⟩
    obtain ⟨same,named⟩ := (numbered_iff keyed clock docs _).mp gathered.numbered
    have source (d : Document) (inside : d ∈ docs) : ∃ p ∈ prepared, p.2.fields = d := by
      rw [same,List.map_map] at inside
      exact List.mem_map.mp inside
    refine ⟨?_,?_,?_⟩
    · intro d inside
      obtain ⟨p,member,rfl⟩ := source d inside
      exact ⟨gathered.valid _ inside,p.2.id,named _ (List.mem_map_of_mem member)⟩
    · intro d inside i isId
      obtain ⟨p,member,rfl⟩ := source d inside
      obtain rfl := Except.ok.inj ((named _ (List.mem_map_of_mem member)).symm.trans isId)
      have old : p.1 = e.storage.get c p.2.id := congrArg Prod.fst (gathered.made p member)
      obtain ⟨idx',indexed',unique⟩ := gathered.unique p member
      obtain rfl := Option.some.inj (indexed.symm.trans indexed')
      rw [old] at unique
      exact ⟨fun isInsert => old ▸ gathered.absent isInsert p member,(FreeFor.check indexed p.2 rfl rfl).mpr unique⟩
    · rw [same,List.map_map,List.flatMap_map]
      exact gathered.fresh
  · rintro ⟨valid,direct,nodup⟩
    have named (d : Document) (inside : d ∈ docs) :
        recordIdFor schema d 0 = .ok ((recordIdFor schema d 0).toOption.getD 0) := by
      obtain ⟨i,isId⟩ := (valid d inside).2
      simp [isId,Except.toOption]
    let write (d : Document) : Option Record × Record := (e.storage.get c ((recordIdFor schema d 0).toOption.getD 0),
        e.writtenRecord c 0 d ((recordIdFor schema d 0).toOption.getD 0))
    refine ⟨docs.map write,?_,fun d inside => (valid d inside).1,?_,?_,?_,?_,by simp⟩
    · refine (numbered_iff keyed clock docs _).mpr ⟨?_,?_⟩
      · simp only [List.map_map]
        exact (List.map_id docs).symm
      · intro r inside
        obtain ⟨p,member,rfl⟩ := List.mem_map.mp inside
        obtain ⟨d,source,rfl⟩ := List.mem_map.mp member
        exact named d source
    · intro p member
      obtain ⟨d,source,rfl⟩ := List.mem_map.mp member
      rfl
    · intro isInsert p member
      obtain ⟨d,source,rfl⟩ := List.mem_map.mp member
      exact (direct d source _ (named d source)).1 isInsert
    · intro p member
      obtain ⟨d,source,rfl⟩ := List.mem_map.mp member
      exact ⟨idx,indexed,(FreeFor.check indexed (write d).2 rfl rfl).mp (direct d source _ (named d source)).2⟩
    · rw [List.flatMap_map]
      exact nodup

theorem commitTo_ok_iff (indexed : e.indexes[c]? = some idx) (io : Result Unit) (batch : Batch)
    (updates : List Update) :
    (∃ e' a, e.commitTo io c batch updates = (e',.ok a)) ↔ (batch.ops = [] ∨ io = .ok ()) := by
  unfold commitTo Storage.commitBatch
  by_cases empty : batch.ops = []
  · simp [empty,indexed]
  · simp only [List.isEmpty_iff,empty,if_false,false_or]
    cases io with
    | error err => simp
    | ok u => simp [indexed]

omit [Host] in
private theorem mapped_ok {α β : Type} (p : Engine × Outcome α) (f : α → β) :
    (∃ e' b, (p.1,p.2.map f) = (e',.ok b)) ↔ ∃ e' a, p = (e',.ok a) := by
  obtain ⟨e',outcome⟩ := p
  cases outcome <;> simp [Outcome.map]

/-- The checks of staging one mutation; those at commit are of what each key is left with. -/
def StageOk (e : Engine) (schema : CollectionSchema) : Mutation → Prop
  | .insert _ fields => DocsOk e schema [fields]
  | .upsert _ fields => DocsOk e schema [fields]
  | .bulkInsert _ docs => DocsOk e schema docs
  | .update c filter set => ∀ old ∈ e.targets c filter, DocOk e schema (old.fields.merge set)
  | .delete _ _ => True

def LeftOk (e : Engine) (c : String) (i : RecordId) : Option Document → Prop
  | some fields => FreeFor e c i fields
  | none => ∀ r, e.storage.get c i = some r → e.inboundLinkCheck c r = .ok ()

def TxnOk (e : Engine) (schema : CollectionSchema) (m : Mutation) : Prop :=
  StageOk e schema m ∧ ∀ i v, (e.intent schema m).last i = some v → LeftOk e m.collection i v

def DirectOk (e : Engine) (schema : CollectionSchema) : Mutation → Prop
  | .insert c fields => DirectDocs e schema c .insert [fields]
  | .upsert c fields => DirectDocs e schema c .upsert [fields]
  | .bulkInsert c docs => DirectDocs e schema c .insert docs
  | .update _ _ set => setsPrimaryKey schema set = false
  | .delete _ _ => True

private theorem docs_left {docs : List Document} {mode : WriteMode} (staged : DocsOk e schema docs)
    (direct : DirectDocs e schema c mode docs) :
    ∀ i v, (docsIntent schema docs).last i = some v → LeftOk e c i v := by
  intro i v found
  obtain ⟨d,inside,isId,rfl⟩ := mem_docsIntent (fun d inside => (staged d inside).2) (Intent.mem_of_last found)
  exact (direct.1 d inside i isId).2

theorem writeRecords_ok_iff (found : e.storage.schemas[c]? = some schema) (keyed : schema.primaryKey.isSome)
    (indexed : e.indexes[c]? = some idx) (io : Result Unit) (mode : WriteMode) (docs : List Document) :
    (∃ e' a, e.writeRecords io c docs mode 0 = (e',.ok a)) ↔
      (DocsOk e schema docs ∧ ∀ i v, (docsIntent schema docs).last i = some v → LeftOk e c i v) ∧
        DirectDocs e schema c mode docs ∧ (docsIntent schema docs = [] ∨ io = .ok ()) := by
  have length (prepared) (gathered : Gathered e schema c mode 0 docs e.clock [] prepared) :
      (prepared.map (fun p => LogOp.put 0 p.2) = [] ∨ io = .ok ()) ↔ (docsIntent schema docs = [] ∨ io = .ok ()) := by
    obtain ⟨same,_⟩ := (numbered_iff keyed e.clock docs _).mp gathered.numbered
    simp [docsIntent,same]
  unfold writeRecords
  rw [(schemaFor_ok_iff e c schema).mpr found]
  simp only
  constructor
  · intro done
    split at done
    · simp at done
    · simp at done
    · rename_i prepared gathered
      have facts := prepareWrites_ok_iff.mp gathered
      obtain ⟨staged,direct⟩ := (gathered_iff keyed indexed mode docs e.clock).mp ⟨prepared,facts⟩
      refine ⟨⟨staged,docs_left staged direct⟩,direct,(length prepared facts).mp ?_⟩
      have committed := (mapped_ok _ _).mp done
      exact (commitTo_ok_iff (by exact indexed) io _ _).mp committed
  · rintro ⟨⟨staged,_⟩,direct,written⟩
    obtain ⟨prepared,facts⟩ := (gathered_iff keyed indexed mode docs e.clock).mpr ⟨staged,direct⟩
    rw [prepareWrites_ok_iff.mpr facts]
    refine (mapped_ok _ _).mpr ((commitTo_ok_iff (by exact indexed) io _ _).mpr ?_)
    exact (length prepared facts).mpr written

section
variable (ok : e.storage.WellFormed)
include ok

private theorem targets_free (indexed : e.indexes[c]? = some idx) {filter : Option Filter}
    {old : Record} (inside : old ∈ e.targets c filter) (set : Document) : FreeFor e c old.id (old.fields.merge set) ↔
      idx.checkUnique (updatedRecord c set 0 old) (some old.id) = .ok () := by
  have check : FreeFor e c old.id (old.fields.merge set) ↔ _ :=
    FreeFor.check indexed (updatedRecord c set 0 old) rfl rfl
  rw [check,mem_targets ok inside]
  rfl

private theorem last_targets (filter : Option Filter) (f : Record → Option Document)
    (P : RecordId → Option Document → Prop) :
    (∀ i v, Intent.last ((e.targets c filter).map (fun old => (old.id,f old))) i = some v → P i v) ↔
      ∀ old ∈ e.targets c filter, P old.id (f old) := by
  have only (old old' : Record) (inside : old ∈ e.targets c filter) (inside' : old' ∈ e.targets c filter)
      (same : old.id = old'.id) : old = old' := by
    have first := mem_targets ok inside
    rw [same,mem_targets ok inside'] at first
    exact (Option.some.inj first).symm
  constructor
  · intro all old inside
    obtain ⟨v,isLast⟩ := Intent.last_isSome (List.mem_map.mpr ⟨old,inside,rfl⟩ :
      (old.id,f old) ∈ (e.targets c filter).map (fun old => (old.id,f old)))
    obtain ⟨old',inside',same⟩ := List.mem_map.mp (Intent.mem_of_last isLast)
    obtain ⟨ids,rfl⟩ := Prod.mk.inj same
    obtain rfl := only old' old inside' inside ids
    exact all _ _ isLast
  · intro all i v isLast
    obtain ⟨old,inside,same⟩ := List.mem_map.mp (Intent.mem_of_last isLast)
    obtain ⟨rfl,rfl⟩ := Prod.mk.inj same
    exact all old inside

section
variable (found : e.storage.schemas[c]? = some schema) (indexed : e.indexes[c]? = some idx) (io : Result Unit)
  (filter : Option Filter)
include found indexed io filter

theorem updateRecords_ok_iff (set : Document) : (∃ e' a, e.updateRecords io c filter set 0 = (e',.ok a)) ↔
      TxnOk e schema (.update c filter set) ∧ setsPrimaryKey schema set = false ∧
        (e.targets c filter = [] ∨ io = .ok ()) := by
  have checks : TxnOk e schema (.update c filter set) ↔ ∀ old ∈ e.targets c filter,
      e.prepareUpdate schema c set 0 old = .ok (old,updatedRecord c set 0 old) := by
    simp only [TxnOk,StageOk,intent,last_targets ok,Mutation.collection,LeftOk]
    constructor
    · rintro ⟨valid,free⟩ old inside
      exact prepareUpdate_ok_iff.mpr ⟨rfl,(valid old inside).1,(valid old inside).2,idx,indexed,
        (targets_free ok indexed inside set).mp (free old inside)⟩
    · intro prepared
      refine ⟨fun old inside => ?_,fun old inside => ?_⟩
      · obtain ⟨_,valid,references,_⟩ := prepareUpdate_ok_iff.mp (prepared old inside)
        exact ⟨valid,references⟩
      · obtain ⟨_,_,_,idx',indexed',unique⟩ := prepareUpdate_ok_iff.mp (prepared old inside)
        obtain rfl := Option.some.inj (indexed.symm.trans indexed')
        exact (targets_free ok indexed inside set).mpr unique
  unfold updateRecords
  rw [(schemaFor_ok_iff e c schema).mpr found,checks]
  simp only
  cases sets : setsPrimaryKey schema set with
  | true => simp
  | false =>
    simp only [Bool.false_eq_true,if_false,true_and]
    constructor
    · intro done
      split at done
      · simp at done
      · simp at done
      · rename_i prepared gathered
        have each := (Outcome.collect_ok_iff _ _ _).mp gathered
        obtain rfl := collect_updates gathered
        refine ⟨List.forall₂_same.mp (List.forall₂_map_right_iff.mp each),?_⟩
        split at done
        · rename_i none
          exact Or.inl (by simpa using none)
        · have written := (commitTo_ok_iff indexed io _ _).mp ((mapped_ok _ _).mp done)
          simpa using written
    · rintro ⟨prepared,written⟩
      have gathered : Outcome.collect (e.prepareUpdate schema c set 0) (e.targets c filter) =
          .ok ((e.targets c filter).map (fun old => (old,updatedRecord c set 0 old))) := by
        refine (Outcome.collect_ok_iff _ _ _).mpr (List.forall₂_map_right_iff.mpr (List.forall₂_same.mpr prepared))
      rw [gathered]
      simp only
      split
      · exact ⟨_,_,rfl⟩
      · refine (mapped_ok _ _).mpr ((commitTo_ok_iff indexed io _ _).mpr ?_)
        simpa using written

theorem deleteRecords_ok_iff : (∃ e' a, e.deleteRecords io c filter 0 = (e',.ok a)) ↔
      TxnOk e schema (.delete c filter) ∧ (e.targets c filter = [] ∨ io = .ok ()) := by
  have checks : TxnOk e schema (.delete c filter) ↔ checkAll (e.inboundLinkCheck c) (e.targets c filter) = .ok () := by
    simp only [TxnOk,StageOk,true_and,intent,last_targets ok,Mutation.collection,LeftOk,checkAll_ok_iff]
    constructor
    · intro all old inside
      exact all old inside old (mem_targets ok inside)
    · intro all old inside r isLive
      rw [mem_targets ok inside] at isLive
      cases isLive
      exact all old inside
  unfold deleteRecords
  rw [(schemaFor_ok_iff e c schema).mpr found,checks]
  simp only
  cases checkAll (e.inboundLinkCheck c) (e.targets c filter) with
  | error err => simp
  | ok u =>
    simp only [true_and]
    split
    · rename_i none
      have nothing : e.targets c filter = [] := by simpa using none
      simp [nothing]
    · rw [mapped_ok,commitTo_ok_iff indexed io]
      simp

end

end

theorem applyMutation_ok_iff (sound : Sound e) (m : Mutation) (found : e.storage.schemas[m.collection]? = some schema)
    (keyed : schema.primaryKey.isSome) (io : Result Unit) : (∃ e' a, e.applyMutation io m = (e',.ok a)) ↔
      TxnOk e schema m ∧ DirectOk e schema m ∧ (e.intent schema m = [] ∨ io = .ok ()) := by
  obtain ⟨idx,indexed,_,_⟩ := sound.indexed m.collection schema found
  have counted : (∃ e' a, e.applyMutation io m = (e',.ok a)) ↔ ∃ e' a, e.mutate io m = (e',.ok a) := by
    unfold applyMutation
    cases e.mutate io m with
    | mk e' outcome => cases outcome <;> simp
  rw [counted]
  cases m with
  | insert c fields => exact writeRecords_ok_iff found keyed indexed io .insert [fields]
  | upsert c fields => exact writeRecords_ok_iff found keyed indexed io .upsert [fields]
  | bulkInsert c docs => exact writeRecords_ok_iff found keyed indexed io .insert docs
  | update c filter set =>
    have direct := updateRecords_ok_iff (c := c) sound.storage found indexed io filter set
    simpa only [mutate,DirectOk,intent,List.map_eq_nil_iff] using direct
  | delete c filter =>
    have direct := deleteRecords_ok_iff (c := c) sound.storage found indexed io filter
    simpa only [mutate,DirectOk,intent,List.map_eq_nil_iff,true_and] using direct

theorem Made.intent {changes : List Change} (made : Made e m changes)
    (found : e.storage.schemas[m.collection]? = some schema) (keyed : schema.primaryKey.isSome) :
    changes.map (fun ch => (ch.key.id,ch.new.map (·.fields))) = e.intent schema m := by
  obtain ⟨schema',found',_,how⟩ := made
  obtain rfl := Option.some.inj (found.symm.trans found')
  have written (docs : List Document) (written : Written e schema docs changes) :
      changes.map (fun ch => (ch.key.id,ch.new.map (·.fields))) = docsIntent schema docs := by
    obtain ⟨records,rfl,numbered,_⟩ := written
    obtain ⟨rfl,named⟩ := (numbered_iff keyed e.clock docs records).mp numbered
    rw [docsIntent,List.map_map,List.map_map]
    refine List.map_congr_left ?_
    intro r inside
    simp [Change.put,named r inside,Except.toOption]
  cases m with
  | insert c fields | upsert c fields => exact written [fields] how
  | bulkInsert c docs => exact written docs how
  | update c filter set | delete c filter =>
    obtain rfl := how
    rw [List.map_map]
    rfl

theorem applyMutation_fields (ok : e.storage.WellFormed) (m : Mutation)
    (found : e.storage.schemas[m.collection]? = some schema) (keyed : schema.primaryKey.isSome) (io : Result Unit)
    {a : MutationResult} (done : e.applyMutation io m = (e',.ok a)) (c' : String) (i : RecordId) :
    (e'.storage.get c' i).map (·.fields) = Intent.fieldsAfter e.storage m.collection (e.intent schema m) c' i := by
  have ends := applyMutation_ends e ok io m
  rw [done] at ends
  cases ends with
  | committed _ _ changes effect frame made =>
    rw [← made.intent found keyed]
    obtain ⟨_,_,placed,_⟩ := made
    exact effect.fields ok (fun ch inside => (placed ch inside).1) c' i

def stagedFor (c : String) (txnId : TxnId) (i : RecordId) : Option Document → StagedOp
  | some fields => .put ⟨i,c,fields,0,txnId⟩
  | none => .delete

structure Stages (c : String) (txn txn' : Transaction) (plan : Intent) : Prop where
  id : txn'.id = txn.id
  readTs : txn'.readTs = txn.readTs
  staged : ∀ k : Key, txn'.staged[k]? =
    if k.collection = c then ((plan.last k.id).map (stagedFor c txn.id k.id)).or txn.staged[k]?
    else txn.staged[k]?

omit [Host] in
theorem Stages.nil (txn : Transaction) : Stages c txn txn [] := by
  refine ⟨rfl,rfl,?_⟩
  simp [Intent.last]

omit [Host] in
theorem Stages.cons {next : Transaction} {v : Option Document} {rest : Intent} (id : next.id = txn.id)
    (readTs : next.readTs = txn.readTs) (staged : ∀ k : Key, next.staged[k]? =
      if (⟨c,i⟩ : Key) = k then some (stagedFor c txn.id i v) else txn.staged[k]?)
    (others : Stages c next txn' rest) : Stages c txn txn' ((i,v)::rest) := by
  refine ⟨others.id.trans id,others.readTs.trans readTs,?_⟩
  intro k
  rw [others.staged,staged,Intent.last_cons,id]
  obtain ⟨c',i'⟩ := k
  by_cases here : c' = c
  · subst here
    cases Intent.last rest i' with
    | some w => simp
    | none => by_cases own : i = i' <;> simp [own]
  · have other : (⟨c,i⟩ : Key) ≠ ⟨c',i'⟩ := fun same => here (Key.mk.inj same).1.symm
    simp [here,other]

theorem stageDocs_spec (keyed : schema.primaryKey.isSome) (docs : List Document) (clock : Nat) (txn : Transaction) :
    ((∃ a, (e.stageDocs schema c docs clock txn).result = .ok a) ↔ DocsOk e schema docs) ∧
      (DocsOk e schema docs → Stages c txn (e.stageDocs schema c docs clock txn).txn (docsIntent schema docs)) := by
  induction docs generalizing clock txn with
  | nil => exact ⟨⟨fun _ => by simp [DocsOk],fun _ => ⟨[],rfl⟩⟩,fun _ => .nil txn⟩
  | cons fields rest ih =>
    have split_docs : DocsOk e schema (fields::rest) ↔
        (DocOk e schema fields ∧ ∃ i, recordIdFor schema fields 0 = .ok i) ∧ DocsOk e schema rest := by
      simp [DocsOk]
    rw [split_docs]
    simp only [stageDocs,recordIdFor_clock keyed fields clock]
    cases valid : schema.validateRecord fields with
    | error err => simp [DocOk,valid]
    | ok u =>
      cases named : recordIdFor schema fields 0 with
      | error err => simp
      | ok id =>
        cases references : e.referentialCheck schema fields with
        | error err => simp [DocOk,references]
        | ok u =>
          obtain ⟨ran,stages⟩ := ih (clock + 1) (txn.stagePut ⟨id,c,fields,0,txn.id⟩
            ((e.txnGet txn c id).map (·.version)))
          simp only [DocOk,valid,references,and_self,Except.ok.injEq,exists_eq',true_and]
          refine ⟨?_,?_⟩
          · rw [← ran]
            cases (e.stageDocs schema c rest (clock + 1) (txn.stagePut ⟨id,c,fields,0,txn.id⟩
              ((e.txnGet txn c id).map (·.version)))).result <;> simp [Except.map]
          · intro others
            rw [docsIntent_cons named]
            exact .cons (by rfl) (by rfl) (fun k => txn.staged_stagePut _ _ k) (stages others)

theorem stageUpdates_spec (set : Document) (olds : List Record) (txn : Transaction) :
    ((e.stageUpdates schema c set olds txn).2 = .ok () ↔ ∀ old ∈ olds, DocOk e schema (old.fields.merge set)) ∧
      ((∀ old ∈ olds, DocOk e schema (old.fields.merge set)) → Stages c txn (e.stageUpdates schema c set olds txn).1
          (olds.map (fun old => (old.id,some (old.fields.merge set))))) := by
  induction olds generalizing txn with
  | nil => exact ⟨by simp [stageUpdates],fun _ => .nil txn⟩
  | cons old rest ih =>
    simp only [stageUpdates,List.forall_mem_cons]
    cases valid : schema.validateRecord (old.fields.merge set) with
    | error err => simp [DocOk,valid]
    | ok u =>
      cases references : e.referentialCheck schema (old.fields.merge set) with
      | error err => simp [DocOk,references]
      | ok u =>
        obtain ⟨ran,stages⟩ := ih (txn.stagePut ⟨old.id,c,old.fields.merge set,0,txn.id⟩ (some old.version))
        refine ⟨?_,?_⟩
        · simp only [ran,DocOk,valid,references,and_self,true_and]
        · intro all
          exact .cons (by rfl) (by rfl) (fun k => txn.staged_stagePut _ _ k) (stages all.2)

omit [Host] in
theorem stageDeletes_spec (olds : List Record) (txn : Transaction) :
    Stages c txn (stageDeletes c olds txn) (olds.map (fun old => (old.id,none))) := by
  induction olds generalizing txn with
  | nil => exact .nil txn
  | cons old rest ih =>
    exact .cons (by rfl) (by rfl) (fun k => txn.staged_stageDelete c old.id (some old.version) k) (ih _)

omit [Host] in
theorem overlayScan_fresh (ok : e.storage.WellFormed) (empty : txn.staged = ∅)
    (pinned : txn.readTs = e.storage.lastCommitTs) : overlayScan e.storage txn c = e.storage.scan c := by
  have scanned : e.storage.scanAsOf c txn.readTs = e.storage.scan c :=
    Storage.scanAsOf_eq_scan _ _ c _ (fun i => ok.getAsOf_watermark c i _ (Nat.le_of_eq pinned.symm))
  have ops : txn.stagedOps = [] := by simp [Transaction.stagedOps,empty,← List.isEmpty_iff]
  simp [overlayScan,Transaction.stagedPuts,ops,empty,scanned]

theorem stageMutation_spec (ok : e.storage.WellFormed) (m : Mutation)
    (found : e.storage.schemas[m.collection]? = some schema) (keyed : schema.primaryKey.isSome) {txn : Transaction}
    (empty : txn.staged = ∅) (pinned : txn.readTs = e.storage.lastCommitTs) :
    ((∃ a, (e.stageMutation txn m).result = .ok a) ↔ StageOk e schema m) ∧
      (StageOk e schema m → Stages m.collection txn (e.stageMutation txn m).txn (e.intent schema m)) := by
  have targets (c : String) (filter : Option Filter) : e.txnTargets txn c filter = e.targets c filter := by
    rw [txnTargets,overlayScan_fresh ok empty pinned,Engine.targets]
  have counted {α β : Type} (r : Result α) (f : α → β) : (∃ b, r.map f = .ok b) ↔ ∃ a, r = .ok a := by
    cases r <;> simp [Except.map]
  unfold stageMutation
  rw [(schemaFor_ok_iff e m.collection schema).mpr found]
  cases m with
  | insert c fields | upsert c fields =>
    obtain ⟨ran,stages⟩ := stageDocs_spec (e := e) (c := c) keyed [fields] e.clock txn
    exact ⟨(counted _ _).trans ran,stages⟩
  | bulkInsert c docs =>
    obtain ⟨ran,stages⟩ := stageDocs_spec (e := e) (c := c) keyed docs e.clock txn
    exact ⟨(counted _ _).trans ran,stages⟩
  | update c filter set =>
    simp only [targets]
    obtain ⟨ran,stages⟩ := @stageUpdates_spec _ e schema c set (e.targets c filter) txn
    refine ⟨(counted _ _).trans ((?_ : _ ↔ _).trans ran),stages⟩
    exact ⟨fun ⟨_,done⟩ => done,fun done => ⟨(),done⟩⟩
  | delete c filter =>
    simp only [targets]
    exact ⟨⟨fun _ => trivial,fun _ => ⟨_,rfl⟩⟩,fun _ => stageDeletes_spec _ txn⟩

private theorem stageOk_references (staged : StageOk e schema m) {fields : Document}
    (inside : (i,some fields) ∈ e.intent schema m) : e.referentialCheck schema fields = .ok () := by
  have docs (docs : List Document) (staged : DocsOk e schema docs)
      (inside : (i,some fields) ∈ docsIntent schema docs) : e.referentialCheck schema fields = .ok () := by
    obtain ⟨d,member,_,same⟩ := mem_docsIntent (fun d member => (staged d member).2) inside
    obtain rfl := Option.some.inj same
    exact (staged fields member).1.2
  cases m with
  | insert c d | upsert c d => exact docs [d] staged inside
  | bulkInsert c list => exact docs list staged inside
  | update c filter set =>
    obtain ⟨old,member,same⟩ := List.mem_map.mp inside
    cases same
    exact (staged old member).2
  | delete c filter =>
    obtain ⟨old,member,same⟩ := List.mem_map.mp inside
    cases same

private theorem intent_deletes (ok : e.storage.WellFormed)
    (inside : (i,none) ∈ e.intent schema m) : ∃ r, e.storage.get m.collection i = some r := by
  cases m with
  | insert c d | upsert c d | bulkInsert c list => simp [intent,docsIntent] at inside
  | update c filter set => simp [intent] at inside
  | delete c filter =>
    obtain ⟨old,member,same⟩ := List.mem_map.mp inside
    cases same
    exact ⟨old,mem_targets ok member⟩

omit [Host] in
private theorem Stages.fresh (stages : Stages c txn txn' plan) (empty : txn.staged = ∅) (k : Key) : txn'.staged[k]? =
      if k.collection = c then (plan.last k.id).map (stagedFor c txn.id k.id) else none := by
  rw [stages.staged,empty]
  split <;> simp

private theorem Stages.admissible_iff (sound : Sound e) (m : Mutation)
    (found : e.storage.schemas[m.collection]? = some schema) (empty : txn.staged = ∅)
    (pinned : txn.readTs = e.storage.lastCommitTs) (stages : Stages m.collection txn txn' (e.intent schema m))
    (staged : StageOk e schema m) :
    Admissible e txn' ↔ ∀ i v, (e.intent schema m).last i = some v → LeftOk e m.collection i v := by
  obtain ⟨idx,indexed,_,_⟩ := sound.indexed m.collection schema found
  have holds := stages.fresh empty
  constructor
  · intro admissible i v isLast
    have checked := (admissible ⟨m.collection,i⟩ (stagedFor m.collection txn.id i v)
      (by rw [holds]; simp [isLast])).2
    cases v with
    | none => exact checked
    | some fields =>
      obtain ⟨_,_,_,unique⟩ := checked
      refine (FreeFor.check indexed ⟨i,m.collection,fields,0,txn.id⟩ rfl rfl).mpr ?_
      simpa only [commitUnique,indexed] using unique
  · intro left k op isStaged
    rw [holds] at isStaged
    split at isStaged
    · rename_i here
      obtain ⟨v,isLast,rfl⟩ := Option.map_eq_some_iff.mp isStaged
      refine ⟨?_,?_⟩
      · intro latest isLatest
        rw [Storage.latestCommitTs_eq] at isLatest
        obtain ⟨version,newest,rfl⟩ := Option.map_eq_some_iff.mp isLatest
        rw [stages.readTs,pinned]
        exact sound.storage.bounded _ _ version (List.mem_of_getLast? newest)
      · have passed := left k.id v isLast
        cases v with
        | none => exact here ▸ passed
        | some fields =>
          refine ⟨schema,here ▸ found,stageOk_references staged (Intent.mem_of_last isLast),?_⟩
          rw [here]
          simp only [commitUnique,indexed]
          exact (FreeFor.check indexed _ rfl rfl).mp passed
    · cases isStaged

private theorem Stages.deletes (ok : e.storage.WellFormed) (m : Mutation) (empty : txn.staged = ∅)
    (stages : Stages m.collection txn txn' (e.intent schema m)) : ¬DeletesNothing e txn' := by
  rintro ⟨k,isDelete,absent⟩
  rw [stages.fresh empty] at isDelete
  split at isDelete
  · rename_i here
    obtain ⟨v,isLast,same⟩ := Option.map_eq_some_iff.mp isDelete
    cases v with
    | some fields => cases same
    | none =>
      obtain ⟨r,isLive⟩ := intent_deletes ok (Intent.mem_of_last isLast)
      rw [here,isLive] at absent
      cases absent
  · cases isDelete

omit [Host] in
private theorem Stages.changes_nil_iff (empty : txn.staged = ∅)
    (stages : Stages c txn txn' plan) : e.stagedChanges txn' = [] ↔ plan = [] := by
  have holds := stages.fresh empty
  rw [stagedChanges,List.map_eq_nil_iff]
  constructor
  · intro none
    by_contra some
    obtain ⟨p,inside⟩ := List.exists_mem_of_ne_nil _ some
    obtain ⟨v,isLast⟩ := Intent.last_isSome inside
    have member := (txn'.mem_stagedOps ⟨c,p.1⟩ (stagedFor c txn.id p.1 v)).mpr (by rw [holds]; simp [isLast])
    rw [none] at member
    cases member
  · intro none
    by_contra some
    obtain ⟨⟨k,op⟩,inside⟩ := List.exists_mem_of_ne_nil _ some
    have isStaged := (txn'.mem_stagedOps k op).mp inside
    rw [holds,none] at isStaged
    simp [Intent.last] at isStaged

theorem commit_staged_iff (sound : Sound e) (m : Mutation) (found : e.storage.schemas[m.collection]? = some schema)
    (empty : txn.staged = ∅) (pinned : txn.readTs = e.storage.lastCommitTs)
    (stages : Stages m.collection txn txn' (e.intent schema m)) (staged : StageOk e schema m)
    (inTime : e.txns[txn'.id]?.map (·.state) ≠ some .timedOut) (io : Result Unit) :
    (∃ e', e.commit io txn' = (e',.ok ())) ↔ (∀ i v, (e.intent schema m).last i = some v → LeftOk e m.collection i v) ∧
        (e.intent schema m = [] ∨ io = .ok ()) := by
  rw [commit_ok_iff sound.storage io txn' inTime,stages.admissible_iff sound m found empty pinned staged,
    stages.changes_nil_iff empty]
  have deletes := stages.deletes sound.storage m empty
  exact ⟨fun both => ⟨both.1,both.2.2⟩,fun both => ⟨both.1,deletes,both.2⟩⟩

theorem commit_staged_fields (ok : e.storage.WellFormed) (empty : txn.staged = ∅) (stages : Stages c txn txn' plan)
    (io : Result Unit) (done : e.commit io txn' = (e',.ok ())) (c' : String) (i : RecordId) :
    (e'.storage.get c' i).map (·.fields) = Intent.fieldsAfter e.storage c plan c' i := by
  have ends := commit_ends ok io txn'
  rw [done] at ends
  cases ends with
  | committed inTime e1 effect frame admissible fine =>
    have held := effect.get_staged ok ⟨c',i⟩
    rw [stages.fresh empty] at held
    rw [held,Intent.fieldsAfter]
    by_cases here : c' = c
    · simp only [here,if_true]
      cases plan.last i with
      | none => rfl
      | some v => cases v <;> rfl
    · simp only [here,if_false]

/-- Begin a transaction, stage one mutation and commit, with nothing in between. -/
def viaTransaction (e : Engine) (io : Result Unit) (m : Mutation) (now later : Nat) (connectionId : Option Nat) :
    Engine × Outcome Unit :=
  let begun := e.beginTxn now connectionId
  let staged := begun.1.stage begun.2 m later
  match staged.2.2 with
  | .error err => (staged.1,.err err)
  | .ok _ => staged.1.commit io staged.2.1

private def begun (e : Engine) (now later : Nat) (connectionId : Option Nat) : Engine :=
  { e with
    clock := e.clock + 1
    txns := (e.txns.insert e.clock ⟨e.storage.lastCommitTs,now,now,connectionId,.active⟩).insert e.clock
      ⟨e.storage.lastCommitTs,now,later,connectionId,.active⟩ }

private theorem viaTransaction_eq (e : Engine) (io : Result Unit) (m : Mutation) (now later : Nat)
    (connectionId : Option Nat) : e.viaTransaction io m now later connectionId =
      let e₁ := e.begun now later connectionId
      let done := e₁.stageMutation (.beginAt e.clock e.storage.lastCommitTs) m
      match done.result with
      | .error err => ({ e₁ with clock := done.clock },.err err)
      | .ok _ => { e₁ with clock := done.clock }.commit io done.txn := by
  have touched : (e.beginTxn now connectionId).1.touchTxn e.clock later = (e.begun now later connectionId,.ok ()) := by
    have known : (e.beginTxn now connectionId).1.txns[e.clock]? =
        some ⟨e.storage.lastCommitTs,now,now,connectionId,.active⟩ :=
      (TreeMap.getElem?_insert_eq _ _ _ _).trans (if_pos rfl)
    simp only [touchTxn,known]
    rfl
  have staged : (e.beginTxn now connectionId).1.stage (e.beginTxn now connectionId).2 m later =
      ({ e.begun now later connectionId with
          clock := ((e.begun now later connectionId).stageMutation (.beginAt e.clock e.storage.lastCommitTs) m).clock },
        ((e.begun now later connectionId).stageMutation (.beginAt e.clock e.storage.lastCommitTs) m).txn,
        ((e.begun now later connectionId).stageMutation (.beginAt e.clock e.storage.lastCommitTs) m).result) := by
    unfold stage
    rw [show (e.beginTxn now connectionId).2.id = e.clock from rfl,touched]
    rfl
  unfold viaTransaction
  simp only [staged]

def PathsAgree (e : Engine) (m : Mutation) : Prop :=
  ∀ io now later connectionId,
    ((∃ e', e.viaTransaction io m now later connectionId = (e',.ok ())) ↔
      ∃ e' a, e.applyMutation io m = (e',.ok a)) ∧
    ∀ e₁ e₂ a, e.viaTransaction io m now later connectionId = (e₁,.ok ()) → e.applyMutation io m = (e₂,.ok a) →
      ∀ c i, (e₁.storage.get c i).map (·.fields) = (e₂.storage.get c i).map (·.fields)

section
variable (sound : Sound e) (m : Mutation) (found : e.storage.schemas[m.collection]? = some schema)
  (keyed : schema.primaryKey.isSome)
include sound found keyed

private theorem begun_spec (now later : Nat) (connectionId : Option Nat) : let e₁ := e.begun now later connectionId
    let txn : Transaction := .beginAt e.clock e.storage.lastCommitTs
    let done := e₁.stageMutation txn m
    ((∃ a, done.result = .ok a) ↔ StageOk e schema m) ∧
      (StageOk e schema m → Stages m.collection txn done.txn (e.intent schema m) ∧
        Sound { e₁ with clock := done.clock } ∧ e₁.txns[done.txn.id]?.map (·.state) ≠ some .timedOut) := by
  intro e₁ txn done
  obtain ⟨ran,stages⟩ := @stageMutation_spec _ e₁ schema sound.storage m found keyed txn rfl rfl
  refine ⟨ran,?_⟩
  intro staged
  refine ⟨stages staged,sound.congr sound.storage rfl (fun _ => rfl) (fun _ => rfl),?_⟩
  have known : e₁.txns[e.clock]? = some ⟨e.storage.lastCommitTs,now,later,connectionId,.active⟩ :=
    (TreeMap.getElem?_insert_eq _ _ _ _).trans (if_pos rfl)
  rw [(stages staged).id]
  simp only [txn,Transaction.beginAt,known]
  simp

theorem viaTransaction_ok_iff (io : Result Unit) (now later : Nat) (connectionId : Option Nat) :
    (∃ e', e.viaTransaction io m now later connectionId = (e',.ok ())) ↔
      TxnOk e schema m ∧ (e.intent schema m = [] ∨ io = .ok ()) := by
  obtain ⟨ran,staging⟩ := begun_spec sound m found keyed now later connectionId
  rw [viaTransaction_eq]
  simp only
  constructor
  · intro done
    split at done
    · simp at done
    rename_i a result
    have staged := ran.mp ⟨a,result⟩
    obtain ⟨stages,sound₁,inTime⟩ := staging staged
    obtain ⟨left,written⟩ := (commit_staged_iff sound₁ m found rfl rfl stages staged inTime io).mp done
    exact ⟨⟨staged,left⟩,written⟩
  · rintro ⟨⟨staged,left⟩,written⟩
    obtain ⟨a,result⟩ := ran.mpr staged
    obtain ⟨stages,sound₁,inTime⟩ := staging staged
    rw [result]
    exact (commit_staged_iff sound₁ m found rfl rfl stages staged inTime io).mpr ⟨left,written⟩

theorem viaTransaction_fields (io : Result Unit) (now later : Nat) (connectionId : Option Nat)
    (done : e.viaTransaction io m now later connectionId = (e',.ok ())) (c' : String) (i : RecordId) :
    (e'.storage.get c' i).map (·.fields) = Intent.fieldsAfter e.storage m.collection (e.intent schema m) c' i := by
  obtain ⟨ran,staging⟩ := begun_spec sound m found keyed now later connectionId
  rw [viaTransaction_eq] at done
  simp only at done
  split at done
  · cases done
  · rename_i a result
    obtain ⟨stages,sound₁,inTime⟩ := staging (ran.mp ⟨a,result⟩)
    exact commit_staged_fields sound₁.storage rfl stages io done c' i

/-- The paths agree exactly where the checks of the transaction imply those of the direct path. -/
theorem pathsAgree_iff : PathsAgree e m ↔ (TxnOk e schema m → DirectOk e schema m) := by
  have direct := applyMutation_ok_iff sound m found keyed
  have staged := viaTransaction_ok_iff sound m found keyed
  constructor
  · intro agree checked
    have first := (staged (.ok ()) 0 0 none).mpr ⟨checked,Or.inr rfl⟩
    exact ((direct (.ok ())).mp ((agree (.ok ()) 0 0 none).1.mp first)).2.1
  · intro implied io now later connectionId
    refine ⟨?_,?_⟩
    · rw [staged io now later connectionId,direct io]
      exact ⟨fun both => ⟨both.1,implied both.1,both.2⟩,fun all => ⟨all.1,all.2.2⟩⟩
    · intro e₁ e₂ a first second c i
      rw [viaTransaction_fields sound m found keyed io now later connectionId first c i,
        applyMutation_fields sound.storage m found keyed io second c i]

end

end

theorem pathsAgree_iff_notes : ∃ s shown, @System.Runs plainHost (System.fresh System.notes ⟨60,1⟩) shown s ∧
      System.noteText s.engine "a" "status" = some "new" ∧
      @PathsAgree plainHost s.engine (.update "notes" none [("status",.text "old")]) := by
  obtain ⟨s,shown,run,sound,stored,declared⟩ := @System.exists_sound plainHost
    [.mutate (.insert "notes" [("id",.text "a"),("status",.text "new")]) (.ok ())] System.notes ⟨60,1⟩
    (fun t _ => System.noteText t.engine "a" "status" = some "new" ∧
      t.engine.storage.schemas["notes"]? = some System.notes) (by decide +kernel) (by simp [System.WritesApart])
  refine ⟨s,shown,run,stored,?_⟩
  refine (@pathsAgree_iff plainHost s.engine System.notes sound (.update "notes" none [("status",.text "old")])
    declared (by decide)).mpr ?_
  intro _
  exact (by decide : setsPrimaryKey System.notes [("status",.text "old")] = false)

/-- In a transaction an insert replaces the note that is there, and an update changes a primary key. -/
theorem paths_disagree : ∃ s shown, @System.Runs plainHost (System.fresh System.notes ⟨60,1⟩) shown s ∧
      (@viaTransaction plainHost s.engine (.ok ()) (.insert "notes" [("id",.text "a")]) 0 0 none).2.isOk = true ∧
      (@applyMutation plainHost s.engine (.ok ()) (.insert "notes" [("id",.text "a")])).2.isOk = false ∧
      (@viaTransaction plainHost s.engine (.ok ()) (.update "notes" none [("id",.text "b")]) 0 0 none).2.isOk = true ∧
      (@applyMutation plainHost s.engine (.ok ()) (.update "notes" none [("id",.text "b")])).2.isOk = false := by
  exact @System.exists_runs plainHost [.mutate (.insert "notes" [("id",.text "a"),("status",.text "new")]) (.ok ())]
    System.notes ⟨60,1⟩ _ (by decide +kernel)

end Engine

end AuraDb
