import AuraDb.Engine.System

/-! Uniqueness and index agreement along runs. What the checks against the indexes do not see is two records
written by one step; there the invariants need a condition on the step. -/
namespace AuraDb
open Library Std CollectionIndexes
namespace Engine
variable [Host] {e : Engine} {schema : CollectionSchema} {c f k : String} {changes : List Change}
  {records : List Record} {m : Mutation}

theorem mem_pendingKeys (unique : schema.isUniqueField f = true) {r : Record}
    (key : fieldKey f r = some k) : f ++ "\x00" ++ k ∈ pendingKeys schema r := by
  obtain ⟨d,inside,both⟩ := List.any_eq_true.mp unique
  simp only [Bool.and_eq_true,beq_iff_eq] at both
  obtain ⟨rfl,role⟩ := both
  exact List.mem_filterMap.mpr ⟨d,inside,by simp [pendingKey,role,key]⟩

theorem pendingKeys_apart (nodup : (records.flatMap (pendingKeys schema)).Nodup) :
    records.Pairwise (fun r r' => ∀ f, schema.isUniqueField f = true → ∀ k, fieldKey f r = some k →
      fieldKey f r' ≠ some k) := by
  refine (List.nodup_flatMap.mp nodup).2.imp ?_
  intro r r' disjoint f unique k key key'
  exact disjoint (mem_pendingKeys unique key) (mem_pendingKeys unique key')

theorem Apart.of_pairwise
    (pairwise : changes.Pairwise (fun ch ch' => ∀ schema, e.storage.schemas[ch.key.collection]? = some schema →
      ch.key.collection = ch'.key.collection → ∀ f, schema.isUniqueField f = true → ∀ r r' k, ch.new = some r →
      ch'.new = some r' → fieldKey f r = some k → fieldKey f r' = some k → ch.key.id = ch'.key.id)) :
    Apart e changes := by
  intro c schema found
  refine List.pairwise_map.mpr (List.Pairwise.imp_of_mem ?_ (pairwise.filter _))
  intro ch ch' inside inside' apart
  have here : ch.key.collection = c := beq_iff_eq.mp (List.mem_filter.mp inside).2
  have here' : ch'.key.collection = c := beq_iff_eq.mp (List.mem_filter.mp inside').2
  exact apart schema (here.symm ▸ found) (here.trans here'.symm)

def AssignsApart (e : Engine) (c : String) (filter : Option Filter) (set : Document) : Prop :=
  ∀ schema, e.storage.schemas[c]? = some schema →
    (∃ f v, (f,v) ∈ set ∧ schema.isUniqueField f = true ∧ v.isNull = false) → (e.targets c filter).length ≤ 1

private theorem updatedRecord_key {set : Document} {old : Record}
    (key : fieldKey f (updatedRecord c set 0 old) = some k) :
    fieldKey f old = some k ∨ ∃ v, (f,v) ∈ set ∧ v.isNull = false := by
  rcases Document.get_merge old.fields set f with same | ⟨v,inside,found⟩
  · simp only [fieldKey,updatedRecord,same] at key
    exact Or.inl key
  · simp only [fieldKey,updatedRecord,found,Option.bind_some,valueKey] at key
    split at key
    · cases key
    · rename_i filled
      exact Or.inr ⟨v,inside,by simpa using filled⟩

private theorem update_apart (covered : Covered e) (c : String) (filter : Option Filter) (set : Document)
    (assigns : AssignsApart e c filter set) :
    Apart e ((e.targets c filter).map (fun old => .put (updatedRecord c set 0 old))) := by
  refine .of_pairwise (List.pairwise_map.mpr ?_)
  rcases Nat.lt_or_ge 1 (e.targets c filter).length with many | few
  · refine List.Pairwise.imp_of_mem ?_ (List.pairwise_of_forall (l := e.targets c filter)
      (R := fun _ _ => True) (by simp))
    intro old old' inside inside' _ schema found _ f unique r r' k isNew isNew' key key'
    cases isNew
    cases isNew'
    have unassigned : ¬∃ v, (f,v) ∈ set ∧ v.isNull = false := by
      rintro ⟨v,assigned,filled⟩
      exact absurd (assigns schema found ⟨f,v,assigned,unique,filled⟩) (Nat.not_le.mpr many)
    have before := (updatedRecord_key key).resolve_right unassigned
    have before' := (updatedRecord_key key').resolve_right unassigned
    exact covered.uniqueKeys c schema found f unique _ _ old old' k (mem_targets covered.storage inside)
      (mem_targets covered.storage inside') before before'
  · rcases list : e.targets c filter with _ | ⟨old,_ | ⟨_,rest⟩⟩
    · exact List.Pairwise.nil
    · exact List.pairwise_singleton _ _
    · simp [list] at few

theorem Made.apart (covered : Covered e) (made : Made e m changes)
    (assigns : ∀ c filter set, m = .update c filter set → AssignsApart e c filter set) : Apart e changes := by
  obtain ⟨schema,found,placed,how⟩ := made
  have written (docs : List Document) (written : Written e schema docs changes) : Apart e changes := by
    obtain ⟨records,rfl,_,nodup⟩ := written
    refine .of_pairwise (List.pairwise_map.mpr (List.Pairwise.imp_of_mem ?_ (pendingKeys_apart nodup)))
    intro r r' inside _ apart schema' found' _ f unique _ _ k isNew isNew' key key'
    cases isNew
    cases isNew'
    have here := (placed _ (List.mem_map.mpr ⟨r,inside,rfl⟩)).1
    rw [here,found] at found'
    cases found'
    exact absurd key' (apart f unique k key)
  cases m with
  | insert c fields | upsert c fields => exact written [fields] how
  | bulkInsert c docs => exact written docs how
  | update c filter set =>
    obtain rfl := how
    exact update_apart covered c filter set (assigns c filter set rfl)
  | delete c filter =>
    obtain rfl := how
    refine .of_pairwise (List.pairwise_map.mpr (List.pairwise_of_forall ?_))
    intro r r' schema' _ _ f _ _ _ k isNew
    cases isNew

def PutsApart (e : Engine) (txn : Transaction) : Prop :=
  ∀ (k k' : Key) r r', txn.staged[k]? = some (.put r) → txn.staged[k']? = some (.put r') →
    k.collection = k'.collection → ∀ schema, e.storage.schemas[k.collection]? = some schema →
    ∀ f, schema.isUniqueField f = true → ∀ key, fieldKey f r = some key → fieldKey f r' = some key → k = k'

theorem PutsApart.apart {txn : Transaction} (puts : PutsApart e txn) : Apart e (e.stagedChanges txn) := by
  refine .of_pairwise (List.Pairwise.imp_of_mem ?_ (List.pairwise_of_forall (l := e.stagedChanges txn)
    (R := fun _ _ => True) (by simp)))
  intro ch ch' inside inside' _ schema found here f unique r r' k isNew isNew' key key'
  obtain ⟨staged,isStaged,fields,_⟩ := stagedChange_new inside isNew
  obtain ⟨staged',isStaged',fields',_⟩ := stagedChange_new inside' isNew'
  rw [fieldKey,fields] at key
  rw [fieldKey,fields'] at key'
  exact congrArg Key.id (puts _ _ staged staged' isStaged isStaged' here schema found f unique k key key')

/-- No two documents of a bulk insert have different primary keys with one derived id. -/
def IdsDiffer (e : Engine) (c : String) (docs : List Document) : Prop :=
  ∀ schema pk, e.storage.schemas[c]? = some schema → schema.primaryKey = some pk →
    docs.Pairwise (fun d d' => ∀ v v', d.get pk.name = some v → d'.get pk.name = some v' →
      deriveId schema.name v = deriveId schema.name v' → indexKey v = indexKey v')

theorem Numbered.ids_of_none (none : schema.primaryKey = none) (n : Nat) (docs : List Document) (records : List Record)
    (numbered : Numbered schema n docs records) : records.map (·.id) = List.range' n records.length := by
  induction docs generalizing n records with
  | nil =>
    cases records with
    | nil => rfl
    | cons r rest => exact absurd numbered (by simp [Numbered])
  | cons d docs ih =>
    cases records with
    | nil => exact absurd numbered (by simp [Numbered])
    | cons r rest =>
      obtain ⟨_,named,others⟩ := numbered
      simp only [recordIdFor,none,Except.ok.injEq] at named
      rw [List.map_cons,List.length_cons,List.range'_succ,ih (n + 1) rest others,named]

private theorem recordIdFor_ok {pk : FieldDef} (keyed : schema.primaryKey = some pk) {fields : Document}
    {id : RecordId} (named : recordIdFor schema fields 0 = .ok id) :
    ∃ v, fields.get pk.name = some v ∧ v.isNull = false ∧ id = deriveId schema.name v := by
  simp only [recordIdFor,keyed] at named
  split at named
  · cases named
  rename_i v found
  split at named
  · cases named
  · rename_i filled
    exact ⟨v,found,by simpa using filled,(Except.ok.inj named).symm⟩

theorem Written.ids (found : e.storage.schemas[c]? = some schema) {docs : List Document}
    (numbered : Numbered schema e.clock docs records) (nodup : (records.flatMap (pendingKeys schema)).Nodup)
    (differ : IdsDiffer e c docs) : (records.map (·.id)).Nodup := by
  cases keyed : schema.primaryKey with
  | none =>
    rw [Numbered.ids_of_none keyed _ docs records numbered]
    exact List.nodup_range'
  | some pk =>
    obtain ⟨same,named⟩ := (numbered_iff (by simp [keyed]) _ docs records).mp numbered
    have differ := differ schema pk found keyed
    rw [same,List.pairwise_map] at differ
    have unique : schema.isUniqueField pk.name = true :=
      List.any_eq_true.mpr ⟨pk,List.mem_of_find?_eq_some keyed,by simp [List.find?_some keyed]⟩
    refine List.pairwise_map.mpr (List.Pairwise.imp_of_mem ?_ (differ.and (pendingKeys_apart nodup)))
    rintro r r' inside inside' ⟨texts,apart⟩ ids
    obtain ⟨v,held,filled,isId⟩ := recordIdFor_ok keyed (named r inside)
    obtain ⟨v',held',filled',isId'⟩ := recordIdFor_ok keyed (named r' inside')
    have key := texts v v' held held' (isId.symm.trans (ids.trans isId'))
    refine apart pk.name unique (indexKey v) ?_ ?_
    · simp [fieldKey,held,valueKey,filled]
    · simp [fieldKey,held',valueKey,filled',key]

private theorem targets_ids (ok : e.storage.WellFormed) (c : String) (filter : Option Filter) :
    ((e.targets c filter).map (·.id)).Nodup :=
  (ok.scan_ids c).sublist (List.Sublist.map _ List.filter_sublist)

theorem Made.keys (ok : e.storage.WellFormed) (made : Made e m changes)
    (differ : ∀ c docs, m = .bulkInsert c docs → IdsDiffer e c docs) : (changes.map Change.key).Nodup := by
  obtain ⟨schema,found,placed,how⟩ := made
  have single (fields : Document) (written : Written e schema [fields] changes) :
      (changes.map Change.key).Nodup := by
    obtain ⟨records,rfl,numbered,_⟩ := written
    rcases records with _ | ⟨r,_ | ⟨_,_⟩⟩
    · exact List.nodup_nil
    · exact List.nodup_singleton _
    · exact absurd numbered.2.2 (by simp [Numbered])
  have keys {changes : List Change} (ids : ((changes.map Change.key).map Key.id).Nodup) :
      (changes.map Change.key).Nodup := ids.of_map _
  cases m with
  | insert c fields | upsert c fields => exact single fields how
  | bulkInsert c docs =>
    obtain ⟨records,rfl,numbered,nodup⟩ := how
    apply keys
    rw [List.map_map,List.map_map]
    exact Written.ids found numbered nodup (differ c docs rfl)
  | update c filter set | delete c filter =>
    obtain rfl := how
    apply keys
    rw [List.map_map,List.map_map]
    exact targets_ids ok c filter

end Engine

namespace System
variable {a : Act} {e' : Engine}
section
variable [Host] {s₀ s : System} {shown : List Committed}

theorem Stored.indexed {Good : CollectionIndexes → Live → Prop} (stored : Stored s a e')
    (indexed : Engine.Indexed Good s.engine)
    (mutated : ∀ m io changes, a = .mutate m io → Engine.Effect s.engine e' 0 changes →
      Engine.Made s.engine m changes → Engine.Indexed Good e')
    (committed : ∀ id io txn, a = .commit id io → s.handles[id]? = some txn →
      Engine.Effect s.engine e' txn.id (s.engine.stagedChanges txn) → Engine.Admissible s.engine txn →
      Engine.Indexed Good e') : Engine.Indexed Good e' := by
  have ok := stored.wellFormed indexed.storage
  have schemas := stored.schemas
  cases stored with
  | quiet storage indexes => exact indexed.congr ok schemas (fun c => by rw [storage]) indexes
  | pruned rewritten isGc storage indexes =>
    refine indexed.congr ok schemas ?_ (fun c => by rw [indexes])
    intro c
    funext i
    rw [storage]
    exact Storage.get_pruned _ _ _ c i (Nat.lt_of_lt_of_le Nat.one_pos (Nat.le_max_right _ _))
  | mutated m io isMutate changes some effect made => exact mutated m io changes isMutate effect made
  | committed id io isCommit txn held some inTime effect admissible =>
    exact committed id io txn isCommit held effect admissible

/-- A multi-row update assigns no unique field a value, and a transaction commits no two puts with one unique
key. -/
def WritesApart (s : System) : Act → Prop
  | .mutate (.update c filter set) _ => Engine.AssignsApart s.engine c filter set
  | .commit id _ => ∀ txn, s.handles[id]? = some txn → Engine.PutsApart s.engine txn
  | _ => True

private theorem Stored.covered (stored : Stored s a e')
    (covered : Engine.Covered s.engine) (apart : WritesApart s a) : Engine.Covered e' := by
  refine stored.indexed covered ?_ ?_
  · rintro m io changes rfl effect made
    refine effect.covered covered (fun ch inside => ?_) (made.apart covered ?_)
    · obtain ⟨_,_,placed,_⟩ := made
      exact (placed ch inside).2
    · rintro c filter set rfl
      exact apart
  · rintro id io txn rfl held effect admissible
    exact effect.covered covered (Engine.stagedChanges_checked admissible) (apart txn held).apart

/-- Uniqueness: along runs whose steps write no two records with one unique key, no two live records hold equal
values in a unique field. The two zeros are equal and have different keys. -/
theorem unique_fields (started : Started s₀) (run : Run step WritesApart s₀ shown s) :
    ∀ (c : String) schema, s.engine.storage.schemas[c]? = some schema → ∀ f, schema.isUniqueField f = true →
      ∀ i j r r' v v', s.engine.storage.get c i = some r → s.engine.storage.get c j = some r' →
        r.fields.get f = some v → r'.fields.get f = some v' → v.isNull = false → v.eq v' = true →
        v.unsigned = true → v'.unsigned = true → i = j := by
  obtain ⟨covered,_⟩ := Run.along run started.tracked (fun _ t => Engine.Covered t.engine) started.sound.covered
    (fun _ _ _ _ _ _ covered apart _ stepped => stepped.stored.covered covered apart)
  intro c schema found f unique i j r r' v v' isLive isLive' held held' filled equal plain plain'
  obtain rfl := Value.eq_unsigned v v' equal plain plain'
  refine covered.uniqueKeys c schema found f unique i j r r' (indexKey v) isLive isLive' ?_ ?_
  · simp [fieldKey,held,valueKey,filled]
  · simp [fieldKey,held',valueKey,filled]

end

/-- An update of both notes and a transaction that puts both leave one value in the
unique field `email` of two records. -/
theorem unique_fields_shared : noteId "a" ≠ noteId "b" ∧
    (∃ s shown, @Runs plainHost (fresh notes ⟨60,1⟩) shown s ∧ noteText s.engine "a" "email" = some "x" ∧
      noteText s.engine "b" "email" = some "x") ∧
    ∃ s shown, @Runs plainHost (fresh notes ⟨60,1⟩) shown s ∧ shown.all (fun ev => ev.txn.isSome) = true ∧
      noteText s.engine "a" "email" = some "x" ∧ noteText s.engine "b" "email" = some "x" := by
  refine ⟨by decide +kernel,?_,?_⟩
  · exact @exists_runs plainHost [.mutate (.bulkInsert "notes" [[("id",.text "a")],[("id",.text "b")]]) (.ok ()),
      .mutate (.update "notes" none [("email",.text "x")]) (.ok ())] notes ⟨60,1⟩ _ (by decide +kernel)
  · exact @exists_runs plainHost [.begin 0 none,.stage 1 (.bulkInsert "notes" [[("id",.text "a"),("email",.text "x")],
      [("id",.text "b"),("email",.text "x")]]) 0,.commit 1 (.ok ())] notes ⟨60,1⟩ _ (by decide +kernel)

/-- A test for the condition at the steps of a concrete run. -/
def writesFew [Host] (s : System) : Act → Bool
  | .mutate (.update c filter _) _ => decide ((s.engine.targets c filter).length ≤ 1)
  | .commit id _ => s.handles[id]?.all fun txn => txn.staged.toList.all fun p => txn.staged.toList.all (p.1 == ·.1)
  | _ => true

theorem writesFew_apart [Host] (s : System) (a : Act) (few : writesFew s a = true) : WritesApart s a := by
  unfold WritesApart
  split
  · exact fun _ _ _ => of_decide_eq_true few
  · intro txn held k k' r r' put put' _ _ _ _ _ _ _ _
    simp only [writesFew,held,Option.all_some,List.all_eq_true,beq_iff_eq] at few
    exact few (k,_) (ExtTreeMap.mem_toList_iff_getElem?_eq_some.mpr put) (k',_)
      (ExtTreeMap.mem_toList_iff_getElem?_eq_some.mpr put')
  · trivial

/-- The second note is updated and the third one committed. -/
theorem unique_fields_notes :
    ∃ s shown, @Run System Act Committed (@step plainHost) (@WritesApart plainHost) (fresh notes ⟨60,1⟩) shown s ∧
      noteText s.engine "a" "email" = some "x" ∧ noteText s.engine "b" "email" = some "y" ∧
      noteText s.engine "c" "email" = some "z" ∧
      ∀ i j r r' v v', s.engine.storage.get "notes" i = some r → s.engine.storage.get "notes" j = some r' →
        r.fields.get "email" = some v → r'.fields.get "email" = some v' → v.isNull = false → v.eq v' = true →
        v.unsigned = true → v'.unsigned = true → i = j := by
  obtain ⟨s,shown,run,⟨schema,found,unique⟩,texts⟩ := @Run.exists_of_guarded _ _ _ (@step plainHost)
    (@WritesApart plainHost) [.mutate (.bulkInsert "notes" [[("id",.text "a"),("email",.text "x")],
      [("id",.text "b")]]) (.ok ()),
      .mutate (.update "notes" (some (.compare "id" .eq (.text "b"))) [("email",.text "y")]) (.ok ()),.begin 0 none,
      .stage 3 (.insert "notes" [("id",.text "c"),("email",.text "z")]) 0,.commit 3 (.ok ())] (fresh notes ⟨60,1⟩)
    (@writesFew plainHost)
    (fun t _ => (∃ schema ∈ t.engine.storage.schemas["notes"]?, schema.isUniqueField "email" = true) ∧
      noteText t.engine "a" "email" = some "x" ∧ noteText t.engine "b" "email" = some "y" ∧
      noteText t.engine "c" "email" = some "z")
    (by decide +kernel) (fun t a _ => @writesFew_apart plainHost t a)
  exact ⟨s,shown,run,texts.1,texts.2.1,texts.2.2,@unique_fields plainHost _ s shown
    (@fresh_started plainHost notes ⟨60,1⟩) run "notes" schema found "email" unique⟩

section
variable [Host] {s₀ s : System} {shown : List Committed}

/-- No two live records share a unique key after the step, and no id comes from two primary keys. -/
def KeepsUnique (s : System) (a : Act) : Prop :=
  (∀ s' now, step s a = some (s',now) → Engine.UniqueKeys s'.engine) ∧
    ∀ c docs io, a = .mutate (.bulkInsert c docs) io → Engine.IdsDiffer s.engine c docs

private theorem Stored.sound (stored : Stored s a e') (sound : Engine.Sound s.engine) (unique : Engine.UniqueKeys e')
    (differ : ∀ c docs io, a = .mutate (.bulkInsert c docs) io → Engine.IdsDiffer s.engine c docs) :
    Engine.Sound e' := by
  refine stored.indexed sound ?_ ?_
  · rintro m io changes rfl effect made
    refine effect.sound sound (fun ch inside => ?_) (made.keys sound.storage ?_) unique
    · obtain ⟨_,_,placed,_⟩ := made
      exact (placed ch inside).2
    · rintro c docs rfl
      exact differ c docs io rfl
  · rintro id io txn rfl held effect admissible
    exact effect.sound sound (Engine.stagedChanges_checked admissible) (Engine.stagedChanges_keys _ _) unique

theorem Run.sound (started : Started s₀) (run : Run step KeepsUnique s₀ shown s) :
    Engine.Sound s.engine ∧ Engine.UniqueKeys s.engine := by
  obtain ⟨facts,_⟩ := Run.along run started.tracked
    (fun _ t => Engine.Sound t.engine ∧ Engine.UniqueKeys t.engine)
    ⟨started.sound,started.sound.covered.uniqueKeys⟩ (by
      intro shown s a s' now tracked before keeps taken stepped
      have after := keeps.1 s' now taken
      exact ⟨stepped.stored.sound before.1 after keeps.2,after⟩)
  exact facts

/-- Index agreement: along runs in which no step leaves two live records with one unique key, the indexes are,
up to empty and reordered posting lists, those of a rebuild. -/
theorem indexes_rebuilt (started : Started s₀) (run : Run step KeepsUnique s₀ shown s) :
    ∀ (c : String) schema, s.engine.storage.schemas[c]? = some schema →
      ∃ idx idx', s.engine.indexes[c]? = some idx ∧
        (fromSchema schema).rebuild (s.engine.storage.scan c) = .ok idx' ∧ Equivalent idx idx' := by
  obtain ⟨sound,unique⟩ := Run.sound started run
  exact sound.rebuilds unique

theorem Run.keepsUnique (started : Started s₀) (run : Run step (fun s a => WritesApart s a ∧
      ∀ c docs io, a = .mutate (.bulkInsert c docs) io → Engine.IdsDiffer s.engine c docs) s₀ shown s) :
    Run step KeepsUnique s₀ shown s := by
  induction run with
  | start => exact .start _
  | next before a allowed taken ih =>
    obtain ⟨covered,tracked⟩ := Run.along before started.tracked (fun _ t => Engine.Covered t.engine)
      started.sound.covered (fun _ _ _ _ _ _ covered allowed _ stepped => stepped.stored.covered covered allowed.1)
    refine .next ih a ⟨?_,allowed.2⟩ taken
    intro s' now taken
    exact ((step_stepped tracked taken).stored.covered covered allowed.1).uniqueKeys

theorem exists_sound (acts : List Act) (schema : CollectionSchema) (options : EngineOptions)
    (P : System → List Committed → Prop) (found : ∃ p ∈ steps step (fresh schema options) acts, P p.1 p.2)
    (allowed : ∀ a ∈ acts, ∀ t, WritesApart t a ∧
      ∀ c docs io, a = .mutate (.bulkInsert c docs) io → Engine.IdsDiffer t.engine c docs) :
    ∃ s shown, Runs (fresh schema options) shown s ∧ Engine.Sound s.engine ∧ P s shown := by
  obtain ⟨s,shown,run,passed⟩ := Run.exists_of_steps acts (fresh schema options) P found allowed
  have started := fresh_started schema options
  exact ⟨s,shown,run.mono (fun _ _ _ => trivial),(Run.sound started (Run.keepsUnique started run)).1,passed⟩

end

def valuesDiffer (schema : CollectionSchema) (records : List Record) : Bool :=
  records.all (fun r => records.all (fun r' => r.id == r'.id || schema.fields.all (fun f =>
    !(f.primaryKey || f.unique) || match r.fields.get f.name, r'.fields.get f.name with
      | some v, some v' => v.isNull || v'.isNull || !v.eq v'
      | _, _ => true)))

/-- Two infinities are different values of one text, `null`. A transaction commits a note
with each, and the rebuild refuses what is stored. -/
theorem indexes_rebuilt_infinities : ∃ s shown, @Runs plainHost (fresh notes ⟨60,1⟩) shown s ∧
      valuesDiffer notes (s.engine.storage.scan "notes") = true ∧
      ¬∃ idx, @CollectionIndexes.rebuild plainHost (fromSchema notes) (s.engine.storage.scan "notes") = .ok idx := by
  obtain ⟨s,shown,run,differ,refused⟩ := @exists_runs plainHost
    [.begin 0 none,
      .stage 1 (.insert "notes" [("id",.text "a"),("score",.float ⟨0x7ff0000000000000#64⟩)]) 0,
      .stage 1 (.insert "notes" [("id",.text "b"),("score",.float ⟨0xfff0000000000000#64⟩)]) 0,
      .commit 1 (.ok ())] notes ⟨60,1⟩
    (fun t _ => valuesDiffer notes (t.engine.storage.scan "notes") = true ∧
      (@CollectionIndexes.rebuild plainHost (fromSchema notes) (t.engine.storage.scan "notes")).isOk = false)
    (by decide +kernel)
  refine ⟨s,shown,run,differ,?_⟩
  rintro ⟨idx,rebuilt⟩
  simp [rebuilt,Except.isOk,Except.toBool] at refused

theorem indexes_rebuilt_notes :
    ∃ s shown, @Run System Act Committed (@step plainHost) (@KeepsUnique plainHost) (fresh notes ⟨60,1⟩) shown s ∧
      shown.length = 4 ∧
      ∃ idx idx', s.engine.indexes["notes"]? = some idx ∧
        @CollectionIndexes.rebuild plainHost (fromSchema notes) (s.engine.storage.scan "notes") = .ok idx' ∧
        Equivalent idx idx' := by
  obtain ⟨s,shown,run,four,declared⟩ := @Run.exists_of_steps _ _ _ (@step plainHost) (fun t a =>
      @WritesApart plainHost t a ∧ ∀ c docs io, a = .mutate (.bulkInsert c docs) io →
        @Engine.IdsDiffer plainHost t.engine c docs)
    [.mutate (.insert "notes" [("id",.text "a"),("email",.text "x")]) (.ok ()),
      .mutate (.insert "notes" [("id",.text "b"),("status",.text "new")]) (.ok ()),
      .mutate (.upsert "notes" [("id",.text "a"),("status",.text "old")]) (.ok ()),
      .mutate (.delete "notes" none) (.ok ())] (fresh notes ⟨60,1⟩)
    (fun t shown => shown.length = 4 ∧ t.engine.storage.schemas["notes"]? = some notes)
    (by decide +kernel) (by simp [WritesApart])
  have started := @fresh_started plainHost notes ⟨60,1⟩
  have kept := @Run.keepsUnique plainHost _ s shown started run
  exact ⟨s,shown,kept,four,@indexes_rebuilt plainHost _ s shown started kept "notes" notes declared⟩

end System

end AuraDb
