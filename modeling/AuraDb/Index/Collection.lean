import AuraDb.Core.Schema
import AuraDb.Library.Inverted
import Mathlib.Data.List.Sort

/-! The indexes of one collection, as `auradb-index` keeps them. A hash map is a map ordered by its keys: where
the source iterates over one, it sorts what it collects. -/
namespace AuraDb
open Library Library.Ieee754 Library.Inverted Std

abbrev TextIndex := WordIndex String RecordId compare compare

abbrev Postings := ExtTreeMap String (List RecordId) compare

structure VectorIndex where
  dim : Nat
  entries : ExtTreeMap RecordId (List F32) compare
  deriving DecidableEq

namespace TextIndex

def add [Host] (t : TextIndex) (id : RecordId) (text : String) : TextIndex :=
  WordIndex.add t id (tokenize text)

def remove [Host] (t : TextIndex) (id : RecordId) (text : String) : TextIndex :=
  WordIndex.remove t id (tokenize text)

def distinctTerms (terms : List String) : List String := (terms.insertionSort (· ≤ ·)).dedup

def matchTerm [Host] (t : TextIndex) (found : ExtTreeMap RecordId (Nat × F32) compare) (term : String) :
    ExtTreeMap RecordId (Nat × F32) compare :=
  match t.postings[term]? with
  | none => found
  | some items => items.toList.foldl (fun found p => found.alter p.1 (fun entry =>
      let (n,score) := entry.getD (0,⟨0⟩)
      some (n + 1,Host.f32Add score (Host.f32OfNat p.2)))) found

def matched [Host] (t : TextIndex) (terms : List String) : ExtTreeMap RecordId (Nat × F32) compare :=
  terms.foldl (matchTerm t) ∅

def rankCmp (a b : RecordId × F32) : Ordering :=
  ((b.2.partialCmp a.2).getD .eq).then (compare a.1 b.1)

def searchOver [Host] (t : TextIndex) (postings : ExtTreeMap String (ExtTreeMap RecordId Nat compare) compare)
    (terms : List String) : List (RecordId × F32) :=
  if terms.isEmpty then [] else
  (((matched { t with postings := postings } terms).toList.filter (fun p => p.2.1 == terms.length)).map
    (fun p => (p.1,p.2.2))).insertionSort (fun a b => rankCmp a b ≠ .gt)

def search [Host] (t : TextIndex) (query : String) : List (RecordId × F32) :=
  t.searchOver t.postings (distinctTerms (tokenize query))

def noted [Host] (_ : RecordId) (n : Nat) (entry : Option (Nat × F32)) : Nat × F32 :=
  ((entry.getD (0,⟨0⟩)).1 + 1,Host.f32Add (entry.getD (0,⟨0⟩)).2 (Host.f32OfNat n))

theorem matched_eq [Host] (t : TextIndex) (terms : List String) :
    t.matched terms = terms.foldl (WordIndex.gather (fun _ => noted) t.postings) ∅ := by
  have step : matchTerm t = WordIndex.gather (fun _ => noted) t.postings := by
    funext found w
    unfold matchTerm WordIndex.gather
    cases t.postings[w]? <;> rfl
  rw [matched,step]

theorem fst_noted [Host] (i : RecordId) (n : Nat) (entry : Option (Nat × F32)) :
    (noted i n entry).1 = (entry.map Prod.fst).getD 0 + 1 := by
  cases entry <;> rfl

section
variable {β : Type} (found : ExtTreeMap RecordId β compare) (accept : RecordId × β → Bool) (score : β → F32)
  (le : RecordId × F32 → RecordId × F32 → Prop) [DecidableRel le]

theorem nodup_sorted :
    ((((found.toList.filter accept).map fun p => (p.1,score p.2)).insertionSort le).map Prod.fst).Nodup := by
  have ids : (((found.toList.filter accept).map fun p => (p.1,score p.2)).map Prod.fst).Nodup := by
    rw [List.map_map]
    exact (TreeMap.keys_nodup found).sublist (List.filter_sublist.map _)
  exact ((List.perm_insertionSort le _).map _).nodup_iff.mpr ids

theorem mem_sorted (i : RecordId) :
    i ∈ (((found.toList.filter accept).map fun p => (p.1,score p.2)).insertionSort le).map Prod.fst ↔
      ∃ entry, found[i]? = some entry ∧ accept (i,entry) = true := by
  simp [ExtTreeMap.mem_toList_iff_getElem?_eq_some]

end

theorem nodup_searchOver [Host] (t : TextIndex) (postings : ExtTreeMap String (ExtTreeMap RecordId Nat compare) compare)
    (terms : List String) : ((t.searchOver postings terms).map Prod.fst).Nodup := by
  unfold searchOver
  split
  · exact List.nodup_nil
  · exact nodup_sorted _ _ _ _

end TextIndex

structure CollectionIndexes where
  primaryField : Option String
  uniqueFields : List String
  uniqueMaps : ExtTreeMap String (ExtTreeMap String RecordId compare) compare
  secondaryMaps : ExtTreeMap String Postings compare
  docPathMaps : ExtTreeMap String Postings compare
  textMaps : ExtTreeMap String TextIndex compare
  vectorMaps : ExtTreeMap String VectorIndex compare
  deriving DecidableEq

namespace CollectionIndexes

/-- The roles of one field. A later field of the same name replaces an earlier one. -/
def addField (idx : CollectionIndexes) (field : FieldDef) : CollectionIndexes :=
  let idx := if field.primaryKey then { idx with primaryField := some field.name } else idx
  let idx :=
    if field.primaryKey || field.unique then
      { idx with uniqueFields := idx.uniqueFields ++ [field.name]
                 uniqueMaps := idx.uniqueMaps.insert field.name ∅ }
    else if field.indexed then { idx with secondaryMaps := idx.secondaryMaps.insert field.name ∅ }
    else idx
  match field.fieldType with
  | .vector dim => { idx with vectorMaps := idx.vectorMaps.insert field.name ⟨dim,∅⟩ }
  | _ => idx

def fromSchema (schema : CollectionSchema) : CollectionIndexes :=
  { schema.fields.foldl addField ⟨none,[],∅,∅,∅,∅,∅⟩ with
    docPathMaps := schema.documentPathIndexes.foldl (fun maps path => maps.insert path ∅) ∅
    textMaps := schema.fullTextIndexes.foldl (fun maps field => maps.insert field WordIndex.empty) ∅ }

def hasEqualityIndex (idx : CollectionIndexes) (field : String) : Bool :=
  idx.uniqueMaps.contains field || idx.secondaryMaps.contains field || idx.docPathMaps.contains field

def hasTextIndex (idx : CollectionIndexes) (field : String) : Bool := idx.textMaps.contains field

def checkUniqueField [Host] (idx : CollectionIndexes) (record : Record) (replacing : Option RecordId)
    (field : String) : Result Unit :=
  match record.fields.get field with
  | none => .ok ()
  | some value =>
    if value.isNull then .ok () else
    match (idx.uniqueMaps[field]?.getD ∅)[indexKey value]? with
    | none => .ok ()
    | some existing =>
      if some existing ≠ replacing ∧ existing ≠ record.id then
        .error (.uniqueViolation ("field " ++ field ++ " value already exists"))
      else .ok ()

def checkUnique [Host] (idx : CollectionIndexes) (record : Record) (replacing : Option RecordId) :
    Result Unit := checkAll (idx.checkUniqueField record replacing) idx.uniqueFields

def insert [Host] (idx : CollectionIndexes) (record : Record) : CollectionIndexes :=
  { idx with
    uniqueMaps := idx.uniqueMaps.map (fun field m =>
      match record.fields.get field with
      | none => m
      | some value => if value.isNull then m else m.insert (indexKey value) record.id)
    secondaryMaps := idx.secondaryMaps.map (fun field m =>
      match record.fields.get field with
      | none => m
      | some value => if value.isNull then m else push m (indexKey value) record.id)
    docPathMaps := idx.docPathMaps.map (fun path m =>
      match record.getPath path with
      | none => m
      | some value => if value.isNull then m else push m (indexKey value) record.id)
    vectorMaps := idx.vectorMaps.map (fun field m =>
      match record.fields.get field with
      | some (.vector v) => { m with entries := m.entries.insert record.id v }
      | _ => m)
    textMaps := idx.textMaps.map (fun field t =>
      match record.fields.get field with
      | some (.text s) => TextIndex.add t record.id s
      | _ => t) }

/-- Remove a record. Unlike `insert` this does not look at nulls. -/
def remove [Host] (idx : CollectionIndexes) (record : Record) : CollectionIndexes :=
  { idx with
    uniqueMaps := idx.uniqueMaps.map (fun field m =>
      match record.fields.get field with
      | none => m
      | some value => removeUnique m (indexKey value) record.id)
    secondaryMaps := idx.secondaryMaps.map (fun field m =>
      match record.fields.get field with
      | none => m
      | some value => retain m (indexKey value) record.id)
    docPathMaps := idx.docPathMaps.map (fun path m =>
      match record.getPath path with
      | none => m
      | some value => retain m (indexKey value) record.id)
    vectorMaps := idx.vectorMaps.map (fun _ m => { m with entries := m.entries.erase record.id })
    textMaps := idx.textMaps.map (fun field t =>
      match record.fields.get field with
      | some (.text s) => TextIndex.remove t record.id s
      | _ => t) }

def replace [Host] (idx : CollectionIndexes) (old new : Option Record) : CollectionIndexes :=
  let idx := old.elim idx idx.remove
  new.elim idx idx.insert

def lookupEq [Host] (idx : CollectionIndexes) (field : String) (value : Value) : Option (List RecordId) :=
  let key := indexKey value
  match idx.uniqueMaps[field]? with
  | some m => some m[key]?.toList
  | none =>
    match idx.secondaryMaps[field]? with
    | some m => some (posted m key)
    | none => idx.docPathMaps[field]?.map (fun m => posted m key)

def postingCounts (m : Postings) : List (RecordId × Nat) :=
  m.toList.filterMap (fun p => p.2.head?.map (fun first => (first,p.2.length)))

def facetPostings (idx : CollectionIndexes) (field : String) : Option (List (RecordId × Nat)) :=
  match idx.uniqueMaps[field]? with
  | some m => some (m.toList.map (fun p => (p.2,1)))
  | none =>
    match idx.secondaryMaps[field]? with
    | some m => some (postingCounts m)
    | none => idx.docPathMaps[field]?.map postingCounts

def textSearch [Host] (idx : CollectionIndexes) (field query : String) : Result (List (RecordId × F32)) :=
  match idx.textMaps[field]? with
  | none => .error (.invalidRequest ("no full-text index on field " ++ field))
  | some t => .ok (TextIndex.search t query)

def cleared (idx : CollectionIndexes) : CollectionIndexes :=
  { idx with
    uniqueMaps := idx.uniqueMaps.map (fun _ _ => ∅)
    secondaryMaps := idx.secondaryMaps.map (fun _ _ => ∅)
    docPathMaps := idx.docPathMaps.map (fun _ _ => ∅)
    textMaps := idx.textMaps.map (fun _ _ => WordIndex.empty)
    vectorMaps := idx.vectorMaps.map (fun _ m => ⟨m.dim,∅⟩) }

def insertAll [Host] : CollectionIndexes → List Record → Result CollectionIndexes
  | idx, [] => .ok idx
  | idx, record::rest =>
    match idx.checkUnique record none with
    | .error e => .error e
    | .ok () => insertAll (idx.insert record) rest

def rebuild [Host] (idx : CollectionIndexes) (records : List Record) : Result CollectionIndexes :=
  idx.cleared.insertAll records

end CollectionIndexes

end AuraDb
