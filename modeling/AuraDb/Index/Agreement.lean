import AuraDb.Index.Collection

/-! What the indexes of a collection are indexes of: each kind is compared with the values of the live records,
so inserting and removing a record change both sides at one id. -/
namespace AuraDb
open Library Library.Ieee754 Library.Inverted Std Function

abbrev Live := RecordId → Option Record

def valueKey [Host] (value : Value) : Option String := if value.isNull then none else some (indexKey value)

def fieldKey [Host] (field : String) (r : Record) : Option String := (r.fields.get field).bind valueKey

def pathKey [Host] (path : String) (r : Record) : Option String := (r.getPath path).bind valueKey

def valueWords [Host] : Option Value → List String
  | some (.text s) => tokenize s
  | _ => []

def textWords [Host] (field : String) (r : Record) : List String := valueWords (r.fields.get field)

def valueVector : Option Value → Option (List F32)
  | some (.vector v) => some v
  | _ => none

def vectorOf (field : String) (r : Record) : Option (List F32) := valueVector (r.fields.get field)

namespace CollectionIndexes
variable {idx idx' : CollectionIndexes} {live : Live} {β : Type}
  {a b : CollectionIndexes} {maps : ExtTreeMap String β compare}

structure SameShape (idx idx' : CollectionIndexes) : Prop where
  primary : idx.primaryField = idx'.primaryField
  uniqueFields : idx.uniqueFields = idx'.uniqueFields
  unique : ∀ f : String, idx.uniqueMaps[f]?.isSome = idx'.uniqueMaps[f]?.isSome
  secondary : ∀ f : String, idx.secondaryMaps[f]?.isSome = idx'.secondaryMaps[f]?.isSome
  docPath : ∀ p : String, idx.docPathMaps[p]?.isSome = idx'.docPathMaps[p]?.isSome
  text : ∀ f : String, idx.textMaps[f]?.isSome = idx'.textMaps[f]?.isSome
  vector : ∀ f : String, idx.vectorMaps[f]?.map (·.dim) = idx'.vectorMaps[f]?.map (·.dim)

theorem SameShape.refl (idx : CollectionIndexes) : SameShape idx idx := by
  constructor <;> intros <;> rfl

theorem SameShape.trans {c : CollectionIndexes} (ab : SameShape a b) (bc : SameShape b c) : SameShape a c where
  primary := ab.primary.trans bc.primary
  uniqueFields := ab.uniqueFields.trans bc.uniqueFields
  unique f := (ab.unique f).trans (bc.unique f)
  secondary f := (ab.secondary f).trans (bc.secondary f)
  docPath p := (ab.docPath p).trans (bc.docPath p)
  text f := (ab.text f).trans (bc.text f)
  vector f := (ab.vector f).trans (bc.vector f)

theorem SameShape.symm (ab : SameShape a b) : SameShape b a where
  primary := ab.primary.symm
  uniqueFields := ab.uniqueFields.symm
  unique f := (ab.unique f).symm
  secondary f := (ab.secondary f).symm
  docPath p := (ab.docPath p).symm
  text f := (ab.text f).symm
  vector f := (ab.vector f).symm

def Guarded (idx : CollectionIndexes) : Prop := ∀ f : String, idx.uniqueMaps[f]?.isSome → f ∈ idx.uniqueFields

theorem Guarded.congr (guarded : Guarded idx) (same : SameShape idx' idx) : Guarded idx' := by
  intro f found
  rw [same.uniqueFields]
  exact guarded f (same.unique f ▸ found)

theorem cleared_shape (idx : CollectionIndexes) : SameShape idx.cleared idx := by
  constructor <;> intros <;>
    simp only [cleared,ExtTreeMap.getElem?_map,Option.isSome_map,Option.map_map,comp_def]

theorem update_bind (live : Live) (i : RecordId) (r : Option Record) (f : Record → Option β) :
    (fun j => (update live i r j).bind f) = update (fun j => (live j).bind f) i (r.bind f) := by
  funext j
  simp only [update_apply]
  split <;> rfl

private theorem update_elim (live : Live) (i : RecordId) (r : Option Record) (f : Record → List String) :
    (fun j => (update live i r j).elim [] f) = update (fun j => (live j).elim [] f) i (r.elim [] f) := by
  funext j
  simp only [update_apply]
  split <;> rfl

theorem map_some {g : String → β → β} {f : String}
    {m : β} (found : (maps.map g)[f]? = some m) : ∃ old, maps[f]? = some old ∧ m = g f old := by
  rw [ExtTreeMap.getElem?_map] at found
  obtain ⟨old,held,rfl⟩ := Option.map_eq_some_iff.mp found
  exact ⟨old,held,rfl⟩

structure Blank (idx : CollectionIndexes) : Prop where
  unique : ∀ (f : String) m, idx.uniqueMaps[f]? = some m → m = ∅
  secondary : ∀ (f : String) m, idx.secondaryMaps[f]? = some m → m = ∅
  docPath : ∀ (p : String) m, idx.docPathMaps[p]? = some m → m = ∅
  text : ∀ (f : String) t, idx.textMaps[f]? = some t → t = WordIndex.empty
  vector : ∀ (f : String) m, idx.vectorMaps[f]? = some m → m.entries = ∅

private theorem insert_value {P : β → Prop} {b : β}
    (old : ∀ (f : String) m, maps[f]? = some m → P m) (new : P b) (name : String) :
    ∀ (f : String) m, (maps.insert name b)[f]? = some m → P m :=
  TreeMap.forall_insert new (fun f m _ => old f m)

private theorem foldl_insert_value (P : β → Prop) {b : β} (new : P b) (names : List String)
    (maps : ExtTreeMap String β compare) (old : ∀ (f : String) m, maps[f]? = some m → P m) :
    ∀ (f : String) m, (names.foldl (fun maps name => maps.insert name b) maps)[f]? = some m → P m := by
  induction names generalizing maps with
  | nil => exact old
  | cons name rest ih => exact ih _ (insert_value old new name)

private theorem foldl_insert_isSome (b : β) (names : List String) (maps : ExtTreeMap String β compare) (f : String) :
    (names.foldl (fun maps name => maps.insert name b) maps)[f]?.isSome = true ↔
      f ∈ names ∨ maps[f]?.isSome = true := by
  induction names generalizing maps with
  | nil => simp
  | cons name rest ih =>
    rw [List.foldl_cons,ih,TreeMap.getElem?_insert_eq,List.mem_cons]
    by_cases same : name = f
    · simp [same]
    · simp [same,Ne.symm same]

theorem cleared_blank (idx : CollectionIndexes) : Blank idx.cleared := by
  constructor
  · intro f m found
    obtain ⟨old,_,rfl⟩ := map_some found
    rfl
  · intro f m found
    obtain ⟨old,_,rfl⟩ := map_some found
    rfl
  · intro p m found
    obtain ⟨old,_,rfl⟩ := map_some found
    rfl
  · intro f t found
    obtain ⟨old,_,rfl⟩ := map_some found
    rfl
  · intro f m found
    obtain ⟨old,_,rfl⟩ := map_some found
    rfl

private theorem addField_maps (idx : CollectionIndexes) (field : FieldDef) :
    ((idx.addField field).uniqueMaps = idx.uniqueMaps ∨
        (idx.addField field).uniqueMaps = idx.uniqueMaps.insert field.name ∅) ∧
      ((idx.addField field).secondaryMaps = idx.secondaryMaps ∨
        (idx.addField field).secondaryMaps = idx.secondaryMaps.insert field.name ∅) ∧
      ((idx.addField field).vectorMaps = idx.vectorMaps ∨
        ∃ dim, (idx.addField field).vectorMaps = idx.vectorMaps.insert field.name ⟨dim,∅⟩) ∧
      (idx.addField field).docPathMaps = idx.docPathMaps ∧ (idx.addField field).textMaps = idx.textMaps := by
  unfold addField
  cases field.primaryKey <;> cases field.unique <;> cases field.indexed <;> cases field.fieldType <;> simp
  all_goals exact .inr ⟨_,rfl⟩

private theorem addField_blank (blank : Blank idx) (field : FieldDef) : Blank (idx.addField field) := by
  obtain ⟨unique,secondary,vector,docPath,text⟩ := addField_maps idx field
  refine ⟨?_,?_,docPath ▸ blank.docPath,text ▸ blank.text,?_⟩
  · rcases unique with same | added
    · exact same ▸ blank.unique
    · exact added ▸ insert_value blank.unique rfl field.name
  · rcases secondary with same | added
    · exact same ▸ blank.secondary
    · exact added ▸ insert_value blank.secondary rfl field.name
  · rcases vector with same | ⟨dim,added⟩
    · exact same ▸ blank.vector
    · rw [added]
      exact @insert_value VectorIndex _ (·.entries = ∅) ⟨dim,∅⟩ blank.vector rfl field.name

private theorem foldl_addField_blank (fields : List FieldDef) (blank : Blank idx) : Blank (fields.foldl addField idx) := by
  induction fields generalizing idx with
  | nil => exact blank
  | cons field rest ih => exact ih (addField_blank blank field)

theorem fromSchema_blank (schema : CollectionSchema) : Blank (fromSchema schema) := by
  have start : Blank ⟨none,[],∅,∅,∅,∅,∅⟩ := by constructor <;> simp
  have fields := foldl_addField_blank schema.fields start
  exact ⟨fields.unique,fields.secondary,foldl_insert_value (· = ∅) rfl _ _ (by simp),
    foldl_insert_value (· = WordIndex.empty) rfl _ _ (by simp),fields.vector⟩

private structure FieldsRead (fields : List FieldDef) (idx : CollectionIndexes) : Prop where
  maps : ∀ f : String, idx.uniqueMaps[f]?.isSome = true ↔ f ∈ idx.uniqueFields
  declared : ∀ f, f ∈ idx.uniqueFields ↔ ∃ d ∈ fields, d.name = f ∧ (d.primaryKey || d.unique) = true

private theorem addField_unique (idx : CollectionIndexes) (field : FieldDef) : (idx.addField field).uniqueFields =
        (if field.primaryKey || field.unique then idx.uniqueFields ++ [field.name] else idx.uniqueFields) ∧
      (idx.addField field).uniqueMaps =
        if field.primaryKey || field.unique then idx.uniqueMaps.insert field.name ∅ else idx.uniqueMaps := by
  unfold addField
  cases field.primaryKey <;> cases field.unique <;> cases field.indexed <;> cases field.fieldType <;>
    exact ⟨rfl,rfl⟩

private theorem FieldsRead.addField {fields : List FieldDef} (read : FieldsRead fields idx) (field : FieldDef) :
    FieldsRead (fields ++ [field]) (idx.addField field) := by
  obtain ⟨names,maps⟩ := addField_unique idx field
  cases roles : field.primaryKey || field.unique with
  | true =>
    simp only [roles,if_true] at names maps
    refine ⟨?_,?_⟩
    · intro f
      rw [names,maps,TreeMap.getElem?_insert_eq,List.mem_append,List.mem_singleton]
      by_cases same : field.name = f
      · simp [same]
      · rw [if_neg same,read.maps]
        simp [Ne.symm same]
    · intro f
      rw [names,List.mem_append,List.mem_singleton,read.declared]
      constructor
      · rintro (⟨d,inside,facts⟩ | rfl)
        · exact ⟨d,by simp [inside],facts⟩
        · exact ⟨field,by simp,rfl,roles⟩
      · rintro ⟨d,inside,name,role⟩
        rcases List.mem_append.mp inside with old | new
        · exact Or.inl ⟨d,old,name,role⟩
        · exact Or.inr (by rw [← name,List.mem_singleton.mp new])
  | false =>
    simp only [roles,Bool.false_eq_true,if_false] at names maps
    refine ⟨fun f => by rw [names,maps,read.maps],?_⟩
    intro f
    rw [names,read.declared]
    constructor
    · rintro ⟨d,inside,facts⟩
      exact ⟨d,by simp [inside],facts⟩
    · rintro ⟨d,inside,name,role⟩
      rcases List.mem_append.mp inside with old | new
      · exact ⟨d,old,name,role⟩
      · rw [List.mem_singleton.mp new,roles] at role
        simp at role

private theorem fieldsRead_foldl (fields done : List FieldDef) (idx : CollectionIndexes)
    (read : FieldsRead done idx) : FieldsRead (done ++ fields) (fields.foldl addField idx) := by
  induction fields generalizing done idx with
  | nil => simpa using read
  | cons field rest ih => simpa using ih (done ++ [field]) _ (read.addField field)

section
variable (schema : CollectionSchema)

private theorem fieldsRead_fromSchema : FieldsRead schema.fields (fromSchema schema) := by
  have start : FieldsRead [] ⟨none,[],∅,∅,∅,∅,∅⟩ := ⟨by simp,by simp⟩
  obtain ⟨maps,declared⟩ := fieldsRead_foldl schema.fields [] _ start
  exact ⟨maps,declared⟩

theorem mem_uniqueFields (f : String) : f ∈ (fromSchema schema).uniqueFields ↔ schema.isUniqueField f = true := by
  rw [(fieldsRead_fromSchema schema).declared]
  simp [CollectionSchema.isUniqueField]

theorem fromSchema_uniqueMaps (f : String) :
    (fromSchema schema).uniqueMaps[f]?.isSome = true ↔ schema.isUniqueField f = true :=
  ((fieldsRead_fromSchema schema).maps f).trans (mem_uniqueFields schema f)

theorem fromSchema_guarded : Guarded (fromSchema schema) :=
  fun f found => ((fieldsRead_fromSchema schema).maps f).mp found

theorem fromSchema_textMaps (f : String) :
    (fromSchema schema).textMaps[f]?.isSome = true ↔ f ∈ schema.fullTextIndexes := by
  refine (foldl_insert_isSome WordIndex.empty schema.fullTextIndexes ∅ f).trans ?_
  simp

end

variable [Host]

theorem insert_shape (idx : CollectionIndexes) (r : Record) : SameShape (idx.insert r) idx := by
  constructor <;> intros <;> simp only [insert,ExtTreeMap.getElem?_map,Option.isSome_map,Option.map_map]
  · split <;> rfl

theorem remove_shape (idx : CollectionIndexes) (r : Record) : SameShape (idx.remove r) idx := by
  constructor <;> intros <;>
    simp only [remove,ExtTreeMap.getElem?_map,Option.isSome_map,Option.map_map,comp_def]

structure Agrees (idx : CollectionIndexes) (live : Live) : Prop where
  unique : ∀ f m, idx.uniqueMaps[f]? = some m → UniqueAgrees m (fun i => (live i).bind (fieldKey f))
  secondary : ∀ f m, idx.secondaryMaps[f]? = some m →
    PostingsAgree m (fun i => (live i).bind (fieldKey f))
  docPath : ∀ p m, idx.docPathMaps[p]? = some m → PostingsAgree m (fun i => (live i).bind (pathKey p))
  text : ∀ f t, idx.textMaps[f]? = some t → WordIndex.Agrees t (fun i => (live i).elim [] (textWords f))
  vector : ∀ f m, idx.vectorMaps[f]? = some m → ∀ i : RecordId, m.entries[i]? = (live i).bind (vectorOf f)

section
variable {M : Type} {A : M → (RecordId → Option String) → Prop} {m : M} {key : RecordId → Option String}
  {f : String → M}

theorem insert_keyed (value : Option Value) (i : RecordId) (skipped : A m (update key i none)) :
    (∀ k, value.bind valueKey = some k → A (f k) (update key i (some k))) → A (match value with
      | none => m
      | some value => if value.isNull then m else f (indexKey value)) (update key i (value.bind valueKey)) := by
  intro taken
  cases value with
  | none => exact skipped
  | some value =>
    simp only [Option.bind_some,valueKey] at taken ⊢
    cases null : value.isNull with
    | true => exact skipped
    | false =>
      simp only [null,Bool.false_eq_true,if_false] at taken ⊢
      exact taken _ rfl

private theorem remove_keyed (value : Option Value) (i : RecordId) (agrees : A m key) :
    key i = value.bind valueKey → (∀ k, (∀ k', key i = some k' → k' = k) → A (f k) (update key i none)) →
    A (match value with
      | none => m
      | some value => f (indexKey value)) (update key i none) := by
  intro own taken
  cases value with
  | none =>
    rw [show none = key i from own.symm,update_eq_self]
    exact agrees
  | some value =>
    apply taken
    intro k' found
    rw [own,Option.bind_some,valueKey] at found
    split_ifs at found
    exact (Option.some.inj found).symm

end

section
variable {t : TextIndex} {words : RecordId → List String} (agrees : WordIndex.Agrees t words)
  (value : Option Value) (i : RecordId)
include agrees value i

private theorem wordsAgree_insert (absent : words i = []) : WordIndex.Agrees (match value with
      | some (.text s) => TextIndex.add t i s
      | _ => t) (update words i (valueWords value)) := by
  have unchanged : update words i [] = words := by rw [← absent,update_eq_self]
  cases value with
  | none => simpa only [valueWords,unchanged] using agrees
  | some value =>
    cases value with
    | text s => exact agrees.add i _ absent
    | _ => simpa only [valueWords,unchanged] using agrees

private theorem wordsAgree_remove (own : words i = valueWords value) : WordIndex.Agrees (match value with
      | some (.text s) => TextIndex.remove t i s
      | _ => t) (update words i []) := by
  have unchanged (nothing : valueWords value = []) : update words i [] = words := by
    rw [← nothing,← own,update_eq_self]
  cases value with
  | none => simpa only [unchanged rfl] using agrees
  | some value =>
    cases value with
    | text s =>
      have removed := agrees.remove i
      rw [own] at removed
      exact removed
    | _ => simpa only [unchanged rfl] using agrees

end

private theorem postings_inserted {r : Record} {old : Postings} {read : Record → Option String}
    (agrees : PostingsAgree old (fun i => (live i).bind read)) (absent : live r.id = none) (value : Option Value)
    (keyed : read r = value.bind valueKey) : PostingsAgree (match value with
      | none => old
      | some value => if value.isNull then old else push old (indexKey value) r.id)
      (fun i => (update live r.id (some r) i).bind read) := by
  have none : (live r.id).bind read = none := by rw [absent,Option.bind_none]
  rw [update_bind,Option.bind_some,keyed]
  refine insert_keyed (A := PostingsAgree) (f := fun k => push old k r.id) value r.id ?_ fun k _ => ?_
  · rw [← none,update_eq_self]
    exact agrees
  · exact agrees.push k r.id none

def TextAgrees (idx : CollectionIndexes) (live : Live) : Prop :=
  ∀ f t, idx.textMaps[f]? = some t → WordIndex.Agrees t (fun i => (live i).elim [] (textWords f))

theorem TextAgrees.insert (agrees : TextAgrees idx live) (r : Record) (absent : live r.id = none) :
    TextAgrees (idx.insert r) (update live r.id (some r)) := by
  intro f t found
  obtain ⟨old,held,rfl⟩ := map_some found
  rw [update_elim]
  exact wordsAgree_insert (agrees f old held) (r.fields.get f) r.id (by simp [absent])

theorem TextAgrees.remove (agrees : TextAgrees idx live) (r : Record) (isLive : live r.id = some r) :
    TextAgrees (idx.remove r) (update live r.id none) := by
  intro f t found
  obtain ⟨old,held,rfl⟩ := map_some found
  rw [update_elim]
  exact wordsAgree_remove (agrees f old held) (r.fields.get f) r.id (by simp only [isLive,Option.elim_some]; rfl)

theorem Agrees.insert (agrees : Agrees idx live) (r : Record) (absent : live r.id = none)
    (free : ∀ f m, idx.uniqueMaps[f]? = some m → ∀ k, fieldKey f r = some k →
      ∀ j r', live j = some r' → fieldKey f r' ≠ some k) : Agrees (idx.insert r) (update live r.id (some r)) where
  unique f m found := by
    obtain ⟨old,held,rfl⟩ := map_some found
    have none : (live r.id).bind (fieldKey f) = none := by rw [absent,Option.bind_none]
    rw [update_bind]
    refine insert_keyed (A := UniqueAgrees) (f := fun k => old.insert k r.id) (r.fields.get f) r.id ?_ fun k own => ?_
    · rw [← none,update_eq_self]
      exact agrees.unique f old held
    · refine (agrees.unique f old held).insert k r.id none fun j taken => ?_
      obtain ⟨r',isLive,same⟩ := Option.bind_eq_some_iff.mp taken
      exact free f old held k own j r' isLive same
  secondary f m found := by
    obtain ⟨old,held,rfl⟩ := map_some found
    exact postings_inserted (agrees.secondary f old held) absent (r.fields.get f) rfl
  docPath p m found := by
    obtain ⟨old,held,rfl⟩ := map_some found
    exact postings_inserted (agrees.docPath p old held) absent (r.getPath p) rfl
  text := TextAgrees.insert agrees.text r absent
  vector f m found i := by
    obtain ⟨old,held,rfl⟩ := map_some found
    have before := agrees.vector f old held i
    simp only [update_apply]
    by_cases own : i = r.id
    · subst i
      simp only [if_true,Option.bind_some,vectorOf]
      rw [absent,Option.bind_none] at before
      cases r.fields.get f with
      | none => simpa only [valueVector] using before
      | some value =>
        cases value with
        | vector v => simp [valueVector]
        | _ => simpa only [valueVector] using before
    · rw [if_neg own,← before]
      split
      · simp [TreeMap.getElem?_insert_eq,Ne.symm own]
      · rfl

theorem Agrees.remove (agrees : Agrees idx live) (r : Record) (isLive : live r.id = some r) :
    Agrees (idx.remove r) (update live r.id none) where
  unique f m found := by
    obtain ⟨old,held,rfl⟩ := map_some found
    rw [update_bind]
    exact remove_keyed (A := UniqueAgrees) (f := fun k => removeUnique old k r.id) (r.fields.get f) r.id
      (agrees.unique f old held) (by simp only [isLive,Option.bind_some]; rfl)
      ((agrees.unique f old held).removeUnique · r.id)
  secondary f m found := by
    obtain ⟨old,held,rfl⟩ := map_some found
    rw [update_bind]
    exact remove_keyed (A := PostingsAgree) (f := fun k => retain old k r.id) (r.fields.get f) r.id
      (agrees.secondary f old held) (by simp only [isLive,Option.bind_some]; rfl) ((agrees.secondary f old held).retain · r.id)
  docPath p m found := by
    obtain ⟨old,held,rfl⟩ := map_some found
    rw [update_bind]
    exact remove_keyed (A := PostingsAgree) (f := fun k => retain old k r.id) (r.getPath p) r.id (agrees.docPath p old held)
      (by simp only [isLive,Option.bind_some]; rfl) ((agrees.docPath p old held).retain · r.id)
  text := TextAgrees.remove agrees.text r isLive
  vector f m found i := by
    obtain ⟨old,held,rfl⟩ := map_some found
    have before := agrees.vector f old held i
    rw [TreeMap.getElem?_erase_eq,before]
    by_cases own : i = r.id
    · simp [own]
    · simp [own,Ne.symm own]

def Free (idx : CollectionIndexes) (live : Live) (r : Record) : Prop :=
  ∀ f m, idx.uniqueMaps[f]? = some m → ∀ k, fieldKey f r = some k →
    ∀ j r', live j = some r' → fieldKey f r' = some k → j = r.id

theorem replace_shape (idx : CollectionIndexes) (old new : Option Record) : SameShape (idx.replace old new) idx := by
  cases old with
  | none =>
    cases new with
    | none => exact SameShape.refl idx
    | some r => exact insert_shape idx r
  | some o =>
    cases new with
    | none => exact remove_shape idx o
    | some r => exact (insert_shape _ r).trans (remove_shape idx o)

theorem Agrees.replace (agrees : Agrees idx live) (i : RecordId) (new : Option Record)
    (oldKeyed : ∀ r, live i = some r → r.id = i) (newKeyed : ∀ r, new = some r → r.id = i)
    (free : ∀ r, new = some r → Free idx live r) : Agrees (idx.replace (live i) new) (update live i new) := by
  have removed : Agrees ((live i).elim idx idx.remove) (update live i none) := by
    cases held : live i with
    | none =>
      have unchanged : update live i none = live := by rw [← held,update_eq_self]
      rw [unchanged]
      exact agrees
    | some old =>
      have own := oldKeyed old held
      subst i
      exact agrees.remove old held
  have shape : SameShape ((live i).elim idx idx.remove) idx := by
    cases live i with
    | none => exact SameShape.refl idx
    | some old => exact remove_shape idx old
  cases new with
  | none => exact removed
  | some r =>
    have own := newKeyed r rfl
    subst own
    have inserted := removed.insert r (by simp) ?_
    · simpa only [CollectionIndexes.replace,Option.elim_some,update_idem] using inserted
    · intro f m found k key j r' isLive same
      rw [update_apply] at isLive
      split_ifs at isLive with other
      have exists_map : idx.uniqueMaps[f]?.isSome = true := by rw [← shape.unique,found]; rfl
      obtain ⟨m',held⟩ := Option.isSome_iff_exists.mp exists_map
      exact other (free r rfl f m' held k key j r' isLive same)

def Covers (idx : CollectionIndexes) (live : Live) : Prop :=
  ∀ f m, idx.uniqueMaps[f]? = some m → UniqueCovers m (fun i => (live i).bind (fieldKey f))

theorem Agrees.covers (agrees : Agrees idx live) : Covers idx live := fun f m found => (agrees.unique f m found).covers

theorem Covers.free (covers : Covers idx live) (guarded : Guarded idx) (r : Record)
    (replacing : Option RecordId) (own : ∀ i, replacing = some i → i = r.id)
    (checked : idx.checkUnique r replacing = .ok ()) : Free idx live r := by
  rw [checkUnique,checkAll_ok_iff] at checked
  intro f m found k key j r' isLive same
  have checked := checked f (guarded f (by simp [found]))
  obtain ⟨value,held,keyed⟩ := Option.bind_eq_some_iff.mp key
  have taken : m[k]? = some j := covers f m found k j (by simp [isLive,same])
  unfold valueKey at keyed
  split_ifs at keyed with null
  obtain rfl := Option.some.inj keyed
  simp only [checkUniqueField,held,null,Bool.false_eq_true,if_false,found,Option.getD_some,taken] at checked
  split_ifs at checked with other
  rcases Classical.not_and_iff_not_or_not.mp other with replaced | self
  · exact own j (Classical.not_not.mp replaced).symm
  · exact Classical.not_not.mp self

theorem checkUnique_ok_iff (agrees : Agrees idx live) (guarded : Guarded idx) (r : Record)
    (replacing : Option RecordId) (own : ∀ i, replacing = some i → i = r.id) :
    idx.checkUnique r replacing = .ok () ↔ Free idx live r := by
  rw [checkUnique,checkAll_ok_iff]
  constructor
  · intro passed
    exact agrees.covers.free guarded r replacing own (checkAll_ok_iff _ _ |>.mpr passed)
  · intro free f _
    unfold checkUniqueField
    cases held : r.fields.get f with
    | none => rfl
    | some value =>
      cases null : value.isNull with
      | true => simp [null]
      | false =>
        simp only [null,Bool.false_eq_true,if_false]
        cases found : idx.uniqueMaps[f]? with
        | none => simp
        | some m =>
          simp only [Option.getD_some]
          cases taken : m[indexKey value]? with
          | none => rfl
          | some j =>
            obtain ⟨r',isLive,same⟩ := Option.bind_eq_some_iff.mp ((agrees.unique f m found _ j).mp taken)
            have self := free f m found (indexKey value) (by simp [fieldKey,held,valueKey,null]) j r' isLive same
            simp [self]

theorem Blank.agrees (blank : Blank idx) : Agrees idx (fun _ => none) where
  unique f m found := blank.unique f m found ▸ uniqueAgrees_empty
  secondary f m found := blank.secondary f m found ▸ postingsAgree_empty
  docPath p m found := blank.docPath p m found ▸ postingsAgree_empty
  text f t found := blank.text f t found ▸ WordIndex.agrees_empty
  vector f m found i := by simp [blank.vector f m found]

theorem insertAll_agrees (records : List Record) (agrees : Agrees idx live) (guarded : Guarded idx)
    (distinct : (records.map (·.id)).Nodup) (fresh : ∀ r ∈ records, live r.id = none)
    (inserted : idx.insertAll records = .ok idx') : SameShape idx' idx ∧
      Agrees idx' (fun i => (records.find? (fun r => r.id == i)).or (live i)) := by
  induction records generalizing idx live with
  | nil =>
    cases inserted
    exact ⟨SameShape.refl _,by simpa using agrees⟩
  | cons r rest ih =>
    obtain ⟨apart,distinct⟩ := List.nodup_cons.mp distinct
    have other (r' : Record) (inside : r' ∈ rest) : r'.id ≠ r.id :=
      fun same => apart (List.mem_map.mpr ⟨r',inside,same⟩)
    simp only [insertAll] at inserted
    split at inserted
    · cases inserted
    rename_i u checked
    have absent := fresh r (by simp)
    have free := (checkUnique_ok_iff agrees guarded r none (by simp)).mp checked
    have next := agrees.insert r absent (by
      intro f m found k key j r' isLive same
      rw [free f m found k key j r' isLive same,absent] at isLive
      simp at isLive)
    obtain ⟨shape,final⟩ := ih next (guarded.congr (insert_shape idx r)) distinct (by
      intro r' inside
      rw [update_of_ne (other r' inside)]
      exact fresh r' (by simp [inside])) inserted
    refine ⟨shape.trans (insert_shape _ r),?_⟩
    convert final using 2 with i
    by_cases own : i = r.id
    · subst i
      have none : rest.find? (fun r' => r'.id == r.id) = none := by
        rw [List.find?_eq_none]
        intro r' inside same
        exact other r' inside (beq_iff_eq.mp same)
      simp [none]
    · simp [own,beq_eq_false_iff_ne.mpr (Ne.symm own)]

theorem rebuild_agrees (records : List Record) (guarded : Guarded idx) (distinct : (records.map (·.id)).Nodup)
    (rebuilt : idx.rebuild records = .ok idx') :
    SameShape idx' idx ∧ Agrees idx' (fun i => records.find? (fun r => r.id == i)) := by
  obtain ⟨shape,agrees⟩ := insertAll_agrees records (cleared_blank idx).agrees
    (guarded.congr (cleared_shape idx)) distinct (by simp) rebuilt
  exact ⟨shape.trans (cleared_shape idx),by simpa using agrees⟩

end CollectionIndexes

end AuraDb
