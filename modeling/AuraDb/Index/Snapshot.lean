import AuraDb.Index.Batch

/-! Index snapshots: what `persist_indexes` writes of the indexes of one collection and how it is read back. The
version numbers and the metadata of approximate graphs are only reported. -/
namespace AuraDb
open Library Library.Ieee754 Library.Inverted Library.TreeMap Std ExtTreeMap

structure UniqueIndexData where
  field : String
  entries : List (String × RecordId)

structure SecondaryIndexData where
  field : String
  entries : List (String × List RecordId)

structure VectorIndexData where
  field : String
  dim : Nat
  entries : List (RecordId × List F32)

structure TextIndexData where
  field : String
  postings : List (String × List (RecordId × Nat))
  docLengths : List (RecordId × Nat)

structure IndexSnapshot where
  fingerprint : Nat
  primaryField : Option String
  unique : List UniqueIndexData
  secondary : List SecondaryIndexData
  documentPaths : List SecondaryIndexData
  vectors : List VectorIndexData
  text : List TextIndexData

def IndexSnapshot.withoutLengths (snap : IndexSnapshot) : IndexSnapshot :=
  { snap with text := snap.text.map fun t => { t with docLengths := [] } }

def fnvByte (h b : Nat) : Nat := ((h ^^^ b) * 0x100000001b3) % 2^64

def idBytes (id : RecordId) : List Nat := (List.range 16).map fun i => id / 256^(15 - i) % 256

def versionBytes (version : Nat) : List Nat := (List.range 8).map fun i => version / 256^i % 256

def fingerprint (records : List Record) : Nat :=
  records.foldl (fun h r => (idBytes r.id ++ versionBytes r.version).foldl fnvByte h) 0xcbf29ce484222325

namespace CollectionIndexes

def postingData (maps : ExtTreeMap String Postings compare) : List SecondaryIndexData :=
  maps.toList.map fun p => ⟨p.1,p.2.toList⟩

def snapshot (idx : CollectionIndexes) (fingerprint : Nat) : IndexSnapshot where
  fingerprint := fingerprint
  primaryField := idx.primaryField
  unique := idx.uniqueMaps.toList.map fun p => ⟨p.1,p.2.toList⟩
  secondary := postingData idx.secondaryMaps
  documentPaths := postingData idx.docPathMaps
  vectors := idx.vectorMaps.toList.map fun p => ⟨p.1,p.2.dim,p.2.entries.toList⟩
  text := idx.textMaps.toList.map fun p =>
    ⟨p.1,p.2.postings.toList.map fun q => (q.1,q.2.toList),p.2.lengths.toList⟩

def sameFields {β : Type} (maps : ExtTreeMap String β compare) (names : List String) : Bool :=
  maps.keys.all names.contains && names.all maps.contains

def loadPostings (maps : ExtTreeMap String Postings compare) (data : List SecondaryIndexData) :
    ExtTreeMap String Postings compare :=
  data.foldl (fun maps d => maps.alter d.field (Option.map (extend · d.entries))) maps

end CollectionIndexes

namespace TextIndex

def rebuildLengths (t : TextIndex) : TextIndex :=
  let lengths := t.postings.toList.foldl (fun lengths p => p.2.toList.foldl (fun lengths q =>
    lengths.alter q.1 (fun n => some (n.getD 0 + q.2))) lengths) (∅ : ExtTreeMap RecordId Nat compare)
  { t with lengths := lengths, total := total lengths }

def load (t : TextIndex) (data : TextIndexData) : TextIndex :=
  let t := { t with
    postings := data.postings.foldl (fun postings p =>
      postings.alter p.1 (fun items => some (extend (items.getD ∅) p.2))) t.postings }
  -- a snapshot without lengths was written before they were kept
  if data.docLengths.isEmpty then rebuildLengths t else
    { t with
      lengths := data.docLengths.foldl (fun lengths p => lengths.alter p.1 (fun n => some (n.getD 0 + p.2))) t.lengths
      total := t.total + (data.docLengths.map Prod.snd).sum }

end TextIndex

namespace CollectionIndexes
variable {β : Type} {idx : CollectionIndexes} {schema : CollectionSchema}
  {t : TextIndex} {words : RecordId → List String} {out : CollectionIndexes} {print : Nat}

def loadVectors : List VectorIndexData → ExtTreeMap String VectorIndex compare →
    Result (ExtTreeMap String VectorIndex compare)
  | [], maps => .ok maps
  | v::rest, maps =>
    if maps[v.field]?.any (fun m => m.dim ≠ v.dim) then .error (.corruption
      ("index snapshot vector dimension mismatch on field " ++ v.field))
    else loadVectors rest (maps.alter v.field (Option.map fun m => { m with entries := extend m.entries v.entries }))

def fromSnapshot (schema : CollectionSchema) (snap : IndexSnapshot) : Result CollectionIndexes :=
  let idx := fromSchema schema
  if idx.primaryField ≠ snap.primaryField then
    .error (.corruption "index snapshot primary key does not match schema") else
  if !(sameFields idx.uniqueMaps (snap.unique.map (·.field)) &&
      sameFields idx.secondaryMaps (snap.secondary.map (·.field)) &&
      sameFields idx.vectorMaps (snap.vectors.map (·.field)) &&
      sameFields idx.docPathMaps (snap.documentPaths.map (·.field)) &&
      sameFields idx.textMaps (snap.text.map (·.field))) then
    .error (.corruption "index snapshot fields do not match schema") else
  match loadVectors snap.vectors idx.vectorMaps with
  | .error err => .error err
  | .ok vectors => .ok
      { idx with
        uniqueMaps := snap.unique.foldl (fun maps u => maps.alter u.field (Option.map (extend · u.entries)))
          idx.uniqueMaps
        secondaryMaps := loadPostings idx.secondaryMaps snap.secondary
        docPathMaps := loadPostings idx.docPathMaps snap.documentPaths
        textMaps := snap.text.foldl (fun maps t => maps.alter t.field (Option.map (TextIndex.load · t))) idx.textMaps
        vectorMaps := vectors }

private theorem foldl_load (saved blank : ExtTreeMap String β compare) (load : β → β → β) (reload : β → β)
    (named : ∀ f : String, saved[f]?.isSome = blank[f]?.isSome)
    (restores : ∀ (f : String) m b, saved[f]? = some m → blank[f]? = some b → load b m = reload m) :
    saved.toList.foldl (fun maps p => maps.alter p.1 (Option.map (load · p.2))) blank =
      saved.map (fun _ => reload) := by
  apply ext_getElem?
  intro f
  rw [getElem?_foldl_alter saved (fun _ m => Option.map (load · m)),getElem?_map]
  have both := named f
  cases kept : saved[f]? with
  | none =>
    rw [kept] at both
    exact Option.isSome_eq_false_iff.mp both.symm |> Option.isNone_iff_eq_none.mp
  | some m =>
    obtain ⟨b,held⟩ := Option.isSome_iff_exists.mp (both.symm.trans (by rw [kept]; rfl))
    simp only [held,Option.map_some,restores f m b kept held]

private theorem map_same (saved : ExtTreeMap String β compare) : saved.map (fun _ m => m) = saved := by
  apply ext_getElem?
  intro f
  rw [getElem?_map,Option.map_id']

theorem sameFields_iff {δ : Type} {maps : ExtTreeMap String β compare} {saved : ExtTreeMap String δ compare}
    {names : List String} (listed : names = saved.toList.map Prod.fst) :
    sameFields maps names = true ↔ ∀ f : String, saved[f]?.isSome = maps[f]?.isSome := by
  have inMaps (f : String) : f ∈ maps.keys ↔ maps[f]?.isSome := by rw [mem_keys,← isSome_getElem?_iff_mem]
  have inNames (f : String) : f ∈ names ↔ saved[f]?.isSome := by
    rw [listed,map_fst_toList_eq_keys,mem_keys,← isSome_getElem?_iff_mem]
  simp only [sameFields,Bool.and_eq_true,List.all_eq_true,List.contains_iff_mem,inMaps,inNames,
    contains_eq_isSome_getElem?]
  exact ⟨fun both f => Bool.eq_iff_iff.mpr ⟨both.2 f,both.1 f⟩,
    fun same => ⟨fun f => (same f).symm ▸ id,fun f => same f ▸ id⟩⟩

theorem load_entries {κ : Type} [DecidableEq κ] {cmp : κ → κ → Ordering} [TransCmp cmp] [LawfulEqCmp cmp]
    (saved blank : ExtTreeMap String (ExtTreeMap κ β cmp) compare)
    (named : ∀ f : String, saved[f]?.isSome = blank[f]?.isSome) (empty : ∀ (f : String) m, blank[f]? = some m → m = ∅) :
    saved.toList.foldl (fun maps p => maps.alter p.1 (Option.map (extend · p.2.toList))) blank = saved := by
  refine (foldl_load saved blank (fun b m => extend b m.toList) (fun m => m) named ?_).trans (map_same saved)
  intro f m b kept held
  rw [empty f b held]
  exact extend_empty m

def savedText (lengths : TextIndex → List (RecordId × Nat)) (field : String) (t : TextIndex) : TextIndexData :=
  ⟨field,t.postings.toList.map fun q => (q.1,q.2.toList),lengths t⟩

theorem load_text (t : TextIndex) (lengths : TextIndex → List (RecordId × Nat)) (field : String) :
    TextIndex.load WordIndex.empty (savedText lengths field t) =
      if (lengths t).isEmpty then TextIndex.rebuildLengths t else
        ⟨t.postings,(lengths t).foldl (fun lengths p => lengths.alter p.1 (fun n => some (n.getD 0 + p.2))) ∅,
          ((lengths t).map Prod.snd).sum⟩ := by
  have postings : (t.postings.toList.map fun q => (q.1,q.2.toList)).foldl (fun postings p =>
      postings.alter p.1 (fun items => some (extend (items.getD ∅) p.2)))
      (WordIndex.empty : TextIndex).postings = t.postings := by
    rw [List.foldl_map]
    apply ext_getElem?
    intro w
    rw [getElem?_foldl_alter t.postings (fun _ m items => some (extend (items.getD ∅) m.toList))]
    cases t.postings[w]? with
    | none => simp [WordIndex.empty]
    | some items => simp [WordIndex.empty,extend_empty]
  simp only [TextIndex.load,savedText,postings]
  simp only [WordIndex.empty,Nat.zero_add]
  rfl

theorem rebuildLengths_agrees (agrees : WordIndex.Agrees t words) : TextIndex.rebuildLengths t = t := by
  simp only [TextIndex.rebuildLengths,agrees.measured,← agrees.total]

theorem loadVectors_ok_iff (data : List VectorIndexData) (maps out : ExtTreeMap String VectorIndex compare) :
    loadVectors data maps = .ok out ↔ (∀ v ∈ data, maps[v.field]?.any (fun m => m.dim ≠ v.dim) = false) ∧
      data.foldl (fun maps v => maps.alter v.field (Option.map fun m =>
        { m with entries := extend m.entries v.entries })) maps = out := by
  induction data generalizing maps with
  | nil => simp [loadVectors]
  | cons v rest ih =>
    have dims (w : VectorIndexData) : (maps.alter v.field (Option.map fun m =>
        { m with entries := extend m.entries v.entries }))[w.field]?.any (fun m => m.dim ≠ w.dim) =
        maps[w.field]?.any (fun m => m.dim ≠ w.dim) := by
      rw [getElem?_alter_eq]
      split
      · rename_i own
        rw [own,Option.any_map]
      · rfl
    rw [loadVectors,List.forall_mem_cons,List.foldl_cons]
    split
    · rename_i differs
      rw [differs]
      simp
    · rename_i fits
      rw [ih,Bool.eq_false_iff.mpr fits]
      simp only [dims,true_and]

/-- What is read back under a schema of the index's shape: everything saved, and a text index made of its
postings and lengths. -/
theorem fromSnapshot_of_shape (shape : SameShape idx (fromSchema schema))
    (print : Nat) (lengths : TextIndex → List (RecordId × Nat)) :
    fromSnapshot schema { idx.snapshot print with text := idx.textMaps.toList.map fun p => savedText lengths p.1 p.2 } =
      .ok { idx with textMaps := idx.textMaps.map fun _ t => TextIndex.load WordIndex.empty (savedText lengths "" t) } := by
  have blank := fromSchema_blank schema
  have dimmed (f : String) : idx.vectorMaps[f]?.isSome = (fromSchema schema).vectorMaps[f]?.isSome := by
    have dims := congrArg Option.isSome (shape.vector f)
    rwa [Option.isSome_map,Option.isSome_map] at dims
  have vectors : loadVectors (idx.snapshot print).vectors (fromSchema schema).vectorMaps = .ok idx.vectorMaps := by
    refine (loadVectors_ok_iff _ _ _).mpr ⟨?_,?_⟩
    · intro v listed
      obtain ⟨⟨f,m⟩,held,rfl⟩ := List.mem_map.mp listed
      have dims := shape.vector f
      rw [mem_toList_iff_getElem?_eq_some.mp held] at dims
      obtain ⟨b,blankHeld,dim⟩ := Option.map_eq_some_iff.mp dims.symm
      simp [blankHeld,dim]
    · simp only [snapshot,List.foldl_map]
      refine (foldl_load idx.vectorMaps _ (fun b m => { b with entries := extend b.entries m.entries.toList })
        (fun m => m) dimmed ?_).trans (map_same _)
      intro f m b kept held
      have dims := shape.vector f
      rw [kept,held] at dims
      obtain ⟨dim,entries⟩ := m
      simp only [blank.vector f b held,extend_empty]
      exact congrArg (VectorIndex.mk · entries) (Option.some.inj dims).symm
  have texts := foldl_load idx.textMaps _ (fun b t => TextIndex.load b (savedText lengths "" t))
    (fun t => TextIndex.load WordIndex.empty (savedText lengths "" t)) shape.text
    (fun f t b _ held => by rw [blank.text f b held])
  have unique := load_entries idx.uniqueMaps _ shape.unique blank.unique
  have secondary := load_entries idx.secondaryMaps _ shape.secondary blank.secondary
  have docPath := load_entries idx.docPathMaps _ shape.docPath blank.docPath
  have fields : (sameFields (fromSchema schema).uniqueMaps ((idx.snapshot print).unique.map (·.field)) &&
      sameFields (fromSchema schema).secondaryMaps ((idx.snapshot print).secondary.map (·.field)) &&
      sameFields (fromSchema schema).vectorMaps ((idx.snapshot print).vectors.map (·.field)) &&
      sameFields (fromSchema schema).docPathMaps ((idx.snapshot print).documentPaths.map (·.field)) &&
      sameFields (fromSchema schema).textMaps
        ((idx.textMaps.toList.map fun p => savedText lengths p.1 p.2).map (·.field))) = true := by
    simp only [snapshot,postingData,List.map_map,Bool.and_eq_true]
    exact ⟨⟨⟨⟨(sameFields_iff rfl).mpr shape.unique,(sameFields_iff rfl).mpr shape.secondary⟩,
      (sameFields_iff rfl).mpr dimmed⟩,(sameFields_iff rfl).mpr shape.docPath⟩,(sameFields_iff rfl).mpr shape.text⟩
  simp only [fromSnapshot]
  rw [if_neg (by exact not_not.mpr shape.primary.symm),
    if_neg (by simpa only [Bool.not_eq_true',Bool.not_eq_false] using fields),vectors]
  simp only [snapshot,loadPostings,postingData,List.foldl_map,unique,secondary,docPath,← shape.primary,← shape.uniqueFields]
  congr 2

/-- A snapshot that is read back was taken of an index with the shape of the schema, but for the order of the
unique fields. -/
theorem shape_of_fromSnapshot (loaded : fromSnapshot schema (idx.snapshot print) = .ok out) :
    SameShape { idx with uniqueFields := (fromSchema schema).uniqueFields } (fromSchema schema) := by
  simp only [fromSnapshot] at loaded
  split at loaded
  · cases loaded
  rename_i primary
  split at loaded
  · cases loaded
  rename_i fields
  simp only [Bool.not_eq_true',Bool.not_eq_false,Bool.and_eq_true,snapshot,postingData,List.map_map] at fields
  obtain ⟨⟨⟨⟨unique,secondary⟩,vector⟩,docPath⟩,text⟩ := fields
  split at loaded
  · cases loaded
  rename_i maps vectors
  refine ⟨(Classical.not_not.mp primary).symm,rfl,(sameFields_iff rfl).mp unique,(sameFields_iff rfl).mp secondary,
    (sameFields_iff rfl).mp docPath,(sameFields_iff rfl).mp text,?_⟩
  intro f
  have both := (sameFields_iff rfl).mp vector f
  cases kept : idx.vectorMaps[f]? with
  | none =>
    rw [kept] at both
    rw [Option.isNone_iff_eq_none.mp (Option.isSome_eq_false_iff.mp both.symm)]
  | some m =>
    obtain ⟨b,held⟩ := Option.isSome_iff_exists.mp (both.symm.trans (by rw [kept]; rfl))
    have dims := ((loadVectors_ok_iff _ _ _).mp vectors).1 _
      (List.mem_map_of_mem (mem_toList_iff_getElem?_eq_some.mpr kept))
    simp only [held,Option.any_some,decide_eq_false_iff_not,not_not] at dims
    simp [held,dims]

theorem load_agreed (agrees : WordIndex.Agrees t words) :
    TextIndex.load WordIndex.empty (savedText (·.lengths.toList) "" t) = t ∧
      TextIndex.load WordIndex.empty (savedText (fun _ => []) "" t) = t := by
  have rebuilt := rebuildLengths_agrees agrees
  refine ⟨?_,(load_text t _ "").trans rebuilt⟩
  rw [load_text]
  split
  · exact rebuilt
  · rw [foldl_add_empty]
    exact congrArg (WordIndex.mk t.postings t.lengths) agrees.total.symm

section
variable [Host] {live : Live}

theorem map_load_agreed (agrees : TextAgrees idx live)
    {load : TextIndex → TextIndex} (loads : ∀ t words, WordIndex.Agrees t words → load t = t) :
    { idx with textMaps := idx.textMaps.map fun _ t => load t } = idx := by
  have same : idx.textMaps.map (fun _ t => load t) = idx.textMaps := by
    apply ext_getElem?
    intro f
    rw [getElem?_map]
    cases held : idx.textMaps[f]? with
    | none => rfl
    | some t => exact congrArg some (loads t _ (agrees f t held))
  rw [same]

/-- A snapshot that is read back under a schema is the index it was taken from. -/
theorem fromSnapshot_snapshot
    (agrees : Agrees idx live) (loaded : fromSnapshot schema (idx.snapshot print) = .ok out) :
    SameShape out (fromSchema schema) ∧ Agrees out live := by
  have shape := shape_of_fromSnapshot loaded
  have kept : Agrees { idx with uniqueFields := (fromSchema schema).uniqueFields } live := { agrees with }
  have read := fromSnapshot_of_shape shape print (·.lengths.toList)
  rw [map_load_agreed kept.text fun t _ own => (load_agreed own).1] at read
  cases loaded.symm.trans read
  exact ⟨shape,kept⟩

inductive IndexOp where
  | insert (record : Record)
  | remove (record : Record)

def apply (idx : CollectionIndexes) : IndexOp → CollectionIndexes
  | .insert r => idx.insert r
  | .remove r => idx.remove r

def Matched : Live → List IndexOp → Prop
  | _, [] => True
  | live, .insert r::rest => live r.id = none ∧ Matched (Function.update live r.id (some r)) rest
  | live, .remove r::rest => live r.id = some r ∧ Matched (Function.update live r.id none) rest

theorem foldl_apply_shape (ops : List IndexOp) (idx : CollectionIndexes) : SameShape (ops.foldl apply idx) idx := by
  induction ops generalizing idx with
  | nil => exact .refl idx
  | cons op rest ih =>
    refine (ih _).trans ?_
    cases op with
    | insert r => exact insert_shape idx r
    | remove r => exact remove_shape idx r

theorem Matched.textAgrees {ops : List IndexOp} (matched : Matched live ops)
    (agrees : TextAgrees idx live) : ∃ live, TextAgrees (ops.foldl apply idx) live := by
  induction ops generalizing idx live with
  | nil => exact ⟨live,agrees⟩
  | cons op rest ih =>
    cases op with
    | insert r => exact ih matched.2 (agrees.insert r matched.1)
    | remove r => exact ih matched.2 (agrees.remove r matched.1)

/-- Whatever records are inserted and removed: a snapshot is read back with the same keys, paths, vectors and
words. Where ids are inserted once and removed as indexed, it is the same index, also if the lengths were not
saved. -/
theorem snapshot_round_trip (schema : CollectionSchema) (ops : List IndexOp) (print : Nat) :
    (∃ load : TextIndex → TextIndex, (∀ t, (load t).postings = t.postings) ∧
      fromSnapshot schema ((ops.foldl apply (fromSchema schema)).snapshot print) =
        .ok { ops.foldl apply (fromSchema schema) with
          textMaps := (ops.foldl apply (fromSchema schema)).textMaps.map fun _ t => load t }) ∧
      (Matched (fun _ => none) ops →
        fromSnapshot schema ((ops.foldl apply (fromSchema schema)).snapshot print) =
            .ok (ops.foldl apply (fromSchema schema)) ∧
          fromSnapshot schema ((ops.foldl apply (fromSchema schema)).snapshot print).withoutLengths =
            .ok (ops.foldl apply (fromSchema schema))) := by
  have shape := foldl_apply_shape ops (fromSchema schema)
  have read := fromSnapshot_of_shape shape print
  refine ⟨⟨_,?_,read (·.lengths.toList)⟩,?_⟩
  · intro t
    rw [load_text]
    split <;> rfl
  · intro matched
    obtain ⟨live,agrees⟩ := matched.textAgrees (fromSchema_blank schema).agrees.text
    have kept := read (·.lengths.toList)
    have unmeasured := read (fun _ => [])
    rw [map_load_agreed agrees fun t _ own => (load_agreed own).1] at kept
    rw [map_load_agreed agrees fun t _ own => (load_agreed own).2] at unmeasured
    refine ⟨kept,unmeasured ▸ ?_⟩
    simp only [IndexSnapshot.withoutLengths,snapshot,List.map_map]
    rfl

end

def pages : CollectionSchema := ⟨"pages",[⟨"body",.string,false,false,true,true⟩],[],[⟨"body",.fullText⟩]⟩

def page (body : String) : Record := ⟨1,"pages",[("body",.text body)],1,1⟩

theorem snapshot_round_trip_pages : letI := plainHost
    fromSnapshot pages ((([.insert (page "a b a"),.remove (page "a b a"),.insert (page "b")]).foldl apply
      (fromSchema pages)).snapshot 0).withoutLengths =
      .ok (([.insert (page "a b a"),.remove (page "a b a"),.insert (page "b")]).foldl apply (fromSchema pages)) :=
  ((@snapshot_round_trip plainHost pages _ 0).2 (by simp [Matched,page])).2

/-- A page is removed with another text than it was inserted with: its word stays, and where the snapshot is
read a length is made for it. -/
theorem snapshot_relengthens : ∃ (schema : CollectionSchema) (ops : List IndexOp), letI := plainHost
    ((ops.foldl apply (fromSchema schema)).textMaps["body"]?.map fun t => (t.lengths.toList,t.total)) = some ([],0) ∧
      ((fromSnapshot schema ((ops.foldl apply (fromSchema schema)).snapshot 0)).toOption.bind
        (·.textMaps["body"]?)).map (fun t => (t.lengths.toList,t.total)) = some ([(1,1)],1) :=
  ⟨pages,[.insert (page "a"),.remove (page "b")],by decide +kernel⟩

end CollectionIndexes

end AuraDb
