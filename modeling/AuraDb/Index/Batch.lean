import AuraDb.Index.Agreement
import Mathlib.Data.List.Induction

/-! What a batch of writes does to the indexes of a collection: each id gets a new record or none, in order, and
the record it held before is taken out. -/
namespace AuraDb
open Library Library.Inverted Std Function

abbrev IdWrite := RecordId × Option Record

namespace Live

def rewrite (live : Live) (writes : List IdWrite) : Live :=
  writes.foldl (fun live w => update live w.1 w.2) live

def Distinct [Host] (live : Live) (schema : CollectionSchema) : Prop :=
  ∀ f, schema.isUniqueField f = true → ∀ i j r r' k, live i = some r → live j = some r' →
    fieldKey f r = some k → fieldKey f r' = some k → i = j

section
variable (live : Live) (writes : List IdWrite)
include live writes

theorem rewrite_apply (i : RecordId) :
    live.rewrite writes i = ((writes.reverse.find? (fun w => w.1 == i)).map Prod.snd).getD (live i) := by
  induction writes using List.reverseRecOn with
  | nil => rfl
  | append_singleton writes w ih =>
    simp only [rewrite,List.foldl_append,List.foldl_cons,List.foldl_nil] at ih ⊢
    rw [update_apply,ih]
    by_cases own : i = w.1
    · simp [own]
    · simp [own,beq_eq_false_iff_ne.mpr (Ne.symm own)]

theorem rewrite_of_not_mem (i : RecordId) (absent : i ∉ writes.map Prod.fst) : live.rewrite writes i = live i := by
  have none : writes.reverse.find? (fun w => w.1 == i) = none := by
    rw [List.find?_eq_none]
    intro w inside same
    exact absent (List.mem_map.mpr ⟨w,by simpa using inside,beq_iff_eq.mp same⟩)
  rw [rewrite_apply,none]
  rfl

theorem rewrite_of_mem (distinct : (writes.map Prod.fst).Nodup)
    (w : IdWrite) (inside : w ∈ writes) : live.rewrite writes w.1 = w.2 := by
  induction writes generalizing live with
  | nil => simp at inside
  | cons first rest ih =>
    obtain ⟨apart,distinct⟩ := List.nodup_cons.mp distinct
    rcases List.mem_cons.mp inside with rfl | later
    · exact (rewrite_of_not_mem _ rest w.1 apart).trans (update_self _ _ _)
    · exact ih _ distinct later

end

end Live

namespace CollectionIndexes
variable [Host] {idx idx' : CollectionIndexes} {live old : Live} {r : Record}

private theorem covers_remove_field {m : ExtTreeMap String RecordId compare} {key : RecordId → Option String}
    (covers : UniqueCovers m key) (value : Option Value) (i : RecordId) : UniqueCovers (match value with
      | none => m
      | some value => removeUnique m (indexKey value) i) (update key i none) := by
  cases value with
  | none => exact covers.forget i
  | some value => exact covers.removeUnique _ i

theorem Covers.remove (covers : Covers idx live) (r : Record) : Covers (idx.remove r) (update live r.id none) := by
  intro f m found
  obtain ⟨held,before,rfl⟩ := map_some found
  rw [update_bind]
  exact covers_remove_field (covers f held before) (r.fields.get f) r.id

theorem Covers.insert (covers : Covers idx live) (r : Record) (free : Free idx live r) :
    Covers (idx.insert r) (update live r.id (some r)) := by
  intro f m found
  obtain ⟨held,before,rfl⟩ := map_some found
  rw [update_bind]
  refine insert_keyed (A := UniqueCovers) (f := fun k => held.insert k r.id) (r.fields.get f) r.id
    ((covers f held before).forget r.id) fun k own => (covers f held before).insert k r.id ?_
  intro j other taken
  obtain ⟨r',isLive,same⟩ := Option.bind_eq_some_iff.mp taken
  exact other (free f held before k own j r' isLive same)

theorem Free.congr (free : Free idx live r) (same : SameShape idx' idx) : Free idx' live r := by
  intro f m found
  obtain ⟨m',held⟩ := Option.isSome_iff_exists.mp (by rw [← same.unique f,found]; rfl)
  exact free f m' held

theorem Covers.replace (covers : Covers idx live) (i : RecordId) (old new : Option Record)
    (oldKeyed : ∀ r, old = some r → r.id = i) (newKeyed : ∀ r, new = some r → r.id = i)
    (free : ∀ r, new = some r → Free idx live r) : Covers (idx.replace old new) (update live i new) := by
  have forgotten : Covers (old.elim idx idx.remove) (update live i none) := by
    cases old with
    | none =>
      intro f m found
      rw [update_bind]
      exact (covers f m found).forget i
    | some o =>
      obtain rfl := oldKeyed o rfl
      exact covers.remove o
  have shape : SameShape (old.elim idx idx.remove) idx := replace_shape idx old none
  cases new with
  | none => exact forgotten
  | some r =>
    obtain rfl := newKeyed r rfl
    have inserted := forgotten.insert r ?_
    · simpa only [CollectionIndexes.replace,Option.elim_some,update_idem] using inserted
    · intro f m found k key j r' isLive same
      rw [update_apply] at isLive
      split_ifs at isLive
      exact (free r rfl).congr shape f m found k key j r' isLive same

def replaceAll (old : Live) (idx : CollectionIndexes) (writes : List IdWrite) : CollectionIndexes :=
  writes.foldl (fun idx w => idx.replace (old w.1) w.2) idx

theorem replaceAll_shape (writes : List IdWrite) (idx : CollectionIndexes) :
    SameShape (replaceAll old idx writes) idx := by
  induction writes generalizing idx with
  | nil => exact SameShape.refl idx
  | cons w rest ih => exact (ih _).trans (replace_shape idx _ _)

/-- The records are free in the live records, and share no unique key unless they are for one id. -/
structure Writable (idx : CollectionIndexes) (live : Live) (writes : List IdWrite) : Prop where
  keyed : ∀ w ∈ writes, ∀ r, w.2 = some r → r.id = w.1
  free : ∀ w ∈ writes, ∀ r, w.2 = some r → Free idx live r
  apart : writes.Pairwise (fun w w' => ∀ f m, idx.uniqueMaps[f]? = some m → ∀ r r' k, w.2 = some r →
    w'.2 = some r' → fieldKey f r = some k → fieldKey f r' = some k → w.1 = w'.1)

theorem Writable.tail {w : IdWrite} {rest : List IdWrite} (writable : Writable idx live (w::rest))
    (held : Option Record) : Writable (idx.replace held w.2) (update live w.1 w.2) rest := by
  obtain ⟨first,others⟩ := List.pairwise_cons.mp writable.apart
  have shape := replace_shape idx held w.2
  have mapped (f : String) (m) (found : (idx.replace held w.2).uniqueMaps[f]? = some m) :
      ∃ m', idx.uniqueMaps[f]? = some m' :=
    Option.isSome_iff_exists.mp (by rw [← shape.unique f,found]; rfl)
  refine ⟨fun w' inside => writable.keyed w' (by simp [inside]),?_,?_⟩
  · intro w' inside r isNew f m found k key j r' isLive same
    obtain ⟨m',before⟩ := mapped f m found
    rw [update_apply] at isLive
    split_ifs at isLive with own
    · have ids := first w' inside f m' before r' r k isLive isNew same key
      rw [own,ids,writable.keyed w' (by simp [inside]) r isNew]
    · exact writable.free w' (by simp [inside]) r isNew f m' before k key j r' isLive same
  · refine others.imp ?_
    intro a b apart f m found
    obtain ⟨m',before⟩ := mapped f m found
    exact apart f m' before

section
variable {writes : List IdWrite} (writable : Writable idx live writes)
include writable

theorem Writable.covers (covers : Covers idx live) (oldKeyed : ∀ i r, old i = some r → r.id = i) :
    Covers (replaceAll old idx writes) (live.rewrite writes) := by
  induction writes generalizing idx live with
  | nil => exact covers
  | cons w rest ih =>
    exact ih (writable.tail (old w.1)) (covers.replace w.1 (old w.1) w.2 (oldKeyed w.1)
      (writable.keyed w (by simp)) (writable.free w (by simp)))

theorem Writable.agrees (agrees : Agrees idx live) (oldKeyed : ∀ i r, old i = some r → r.id = i)
    (distinct : (writes.map Prod.fst).Nodup) (held : ∀ w ∈ writes, old w.1 = live w.1) :
    Agrees (replaceAll old idx writes) (live.rewrite writes) := by
  induction writes generalizing idx live with
  | nil => exact agrees
  | cons w rest ih =>
    -- `old` is read before the batch; each id is written once, so it still is what the id holds
    obtain ⟨apart,distinct⟩ := List.nodup_cons.mp distinct
    have same := held w (by simp)
    have next := agrees.replace w.1 w.2 (fun r isLive => oldKeyed w.1 r (same.trans isLive))
      (writable.keyed w (by simp)) (writable.free w (by simp))
    rw [← same] at next
    refine ih (writable.tail (old w.1)) next distinct ?_
    intro w' inside
    have other : w'.1 ≠ w.1 := fun equal => apart (List.mem_map.mpr ⟨w',inside,equal⟩)
    exact (held w' (by simp [inside])).trans (update_of_ne other _ _).symm

end

theorem Writable.of_distinct {schema : CollectionSchema} {writes : List IdWrite}
    (shape : SameShape idx (fromSchema schema)) (distinctIds : (writes.map Prod.fst).Nodup)
    (keyed : ∀ w ∈ writes, ∀ r, w.2 = some r → r.id = w.1) (free : ∀ w ∈ writes, ∀ r, w.2 = some r → Free idx live r)
    (distinct : (live.rewrite writes).Distinct schema) : Writable idx live writes := by
  refine ⟨keyed,free,?_⟩
  have final (w : IdWrite) (inside : w ∈ writes) := live.rewrite_of_mem writes distinctIds w inside
  refine List.Pairwise.imp_of_mem ?_ (List.pairwise_of_forall (l := writes) (R := fun _ _ => True) (by simp))
  intro w w' inside inside' _ f m found r r' k isNew isNew' key key'
  have unique : schema.isUniqueField f = true := by
    rw [← fromSchema_uniqueMaps,← shape.unique f,found]
    rfl
  exact distinct f unique w.1 w'.1 r r' k ((final w inside).trans isNew) ((final w' inside').trans isNew')
    key key'

theorem insertAll_ok (records : List Record) (agrees : Agrees idx live) (guarded : Guarded idx)
    (distinct : (records.map (·.id)).Nodup) (fresh : ∀ r ∈ records, live r.id = none)
    (free : ∀ r ∈ records, Free idx live r)
    (apart : records.Pairwise (fun r r' => ∀ f m, idx.uniqueMaps[f]? = some m → ∀ k,
      fieldKey f r = some k → fieldKey f r' ≠ some k)) : ∃ idx', idx.insertAll records = .ok idx' := by
  induction records generalizing idx live with
  | nil => exact ⟨idx,rfl⟩
  | cons r rest ih =>
    obtain ⟨others,distinct⟩ := List.nodup_cons.mp distinct
    obtain ⟨first,apart⟩ := List.pairwise_cons.mp apart
    have checked := (checkUnique_ok_iff agrees guarded r none (by simp)).mpr (free r (by simp))
    have absent := fresh r (by simp)
    have shape := insert_shape idx r
    have mapped (f : String) (m) (found : (idx.insert r).uniqueMaps[f]? = some m) :
        ∃ m', idx.uniqueMaps[f]? = some m' :=
      Option.isSome_iff_exists.mp (by rw [← shape.unique f,found]; rfl)
    have next := agrees.insert r absent (by
      intro f m found k key j r' isLive same
      rw [free r (by simp) f m found k key j r' isLive same,absent] at isLive
      simp at isLive)
    simp only [insertAll,checked]
    refine ih next (guarded.congr shape) distinct ?_ ?_ ?_
    · intro r' inside
      have other : r'.id ≠ r.id := fun same => others (List.mem_map.mpr ⟨r',inside,same⟩)
      rw [update_of_ne other]
      exact fresh r' (by simp [inside])
    · intro r' inside f m found k key j held isLive same
      obtain ⟨m',before⟩ := mapped f m found
      rw [update_apply] at isLive
      split_ifs at isLive with own
      · cases isLive
        exact absurd key (first r' inside f m' before k same)
      · exact free r' (by simp [inside]) f m' before k key j held isLive same
    · refine apart.imp ?_
      intro a b differ f m found
      obtain ⟨m',before⟩ := mapped f m found
      exact differ f m' before

/-- The same indexes up to empty posting lists and the order inside a posting list. -/
structure Equivalent (idx idx' : CollectionIndexes) : Prop where
  shape : SameShape idx idx'
  unique : ∀ (f : String) m m', idx.uniqueMaps[f]? = some m → idx'.uniqueMaps[f]? = some m' → m = m'
  secondary : ∀ (f : String) m m', idx.secondaryMaps[f]? = some m → idx'.secondaryMaps[f]? = some m' →
    ∀ k, (posted m k).Perm (posted m' k)
  docPath : ∀ (p : String) m m', idx.docPathMaps[p]? = some m → idx'.docPathMaps[p]? = some m' →
    ∀ k, (posted m k).Perm (posted m' k)
  text : ∀ (f : String) t t', idx.textMaps[f]? = some t → idx'.textMaps[f]? = some t' →
    (∀ w i, WordIndex.frequency t.postings w i = WordIndex.frequency t'.postings w i) ∧
      t.lengths = t'.lengths ∧ t.total = t'.total
  vector : ∀ (f : String) m m', idx.vectorMaps[f]? = some m → idx'.vectorMaps[f]? = some m' → m = m'

theorem Agrees.equivalent (agrees : Agrees idx live) (agrees' : Agrees idx' live) (shape : SameShape idx idx') :
    Equivalent idx idx' where
  shape := shape
  unique f m m' found found' := (agrees.unique f m found).unique (agrees'.unique f m' found')
  secondary f m m' found found' := (agrees.secondary f m found).perm (agrees'.secondary f m' found')
  docPath p m m' found found' := (agrees.docPath p m found).perm (agrees'.docPath p m' found')
  text f t t' found found' := (agrees.text f t found).unique (agrees'.text f t' found')
  vector f m m' found found' := by
    obtain ⟨dim,entries⟩ := m
    obtain ⟨dim',entries'⟩ := m'
    have dims := shape.vector f
    rw [found,found'] at dims
    have same : entries = entries' := by
      apply ExtTreeMap.ext_getElem?
      intro i
      exact (agrees.vector f _ found i).trans (agrees'.vector f _ found' i).symm
    congr 1
    exact Option.some.inj dims

end CollectionIndexes

end AuraDb
