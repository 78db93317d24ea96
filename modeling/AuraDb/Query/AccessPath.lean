import AuraDb.Index.Agreement
import AuraDb.Query.Exec

/-! What the access paths of a find have in common. Every path filters what it fetches, so a path can only miss
records: those whose index key is not the key of the value the filter compares with. -/
namespace AuraDb
open Library Library.Ieee754 Library.Inverted Std
namespace TextIndex
variable [Host] (t : TextIndex)

theorem mem_search (query : String) (i : RecordId) (some_term : distinctTerms (tokenize query) ≠ [])
    (all : ∀ w ∈ distinctTerms (tokenize query), (WordIndex.frequency t.postings w i).isSome = true) :
    i ∈ (search t query).map Prod.fst := by
  simp only [search,searchOver,List.isEmpty_iff,some_term,if_false,mem_sorted,beq_iff_eq,matched_eq]
  exact (WordIndex.mem_gather_iff _ (fun _ => fst_noted) some_term i).mpr all

end TextIndex

namespace Filter

mutual
def conjuncts : Filter → List Filter
  | .and filters => conjunctsAll filters
  | f => [f]

def conjunctsAll : List Filter → List Filter
  | [] => []
  | f::rest => conjuncts f ++ conjunctsAll rest
end

mutual
theorem accepts_conjuncts [Host] (r : Record) :
    (filter : Filter) → accepts r filter = true → ∀ g ∈ filter.conjuncts, accepts r g = true
  | .and filters, ok => by
    rw [accepts] at ok
    exact acceptsAll_conjuncts r filters ok
  | .or _, ok | .not _, ok | .compare _ _ _, ok | .contains _ _, ok | .present _, ok
  | .containsText _ _, ok => by simpa [conjuncts] using ok

theorem acceptsAll_conjuncts [Host] (r : Record) :
    (filters : List Filter) → acceptsAll r filters = true → ∀ g ∈ conjunctsAll filters, accepts r g = true
  | [], _ => by simp [conjunctsAll]
  | f::rest, ok => by
    rw [acceptsAll,Bool.and_eq_true] at ok
    intro g inside
    rw [conjunctsAll,List.mem_append] at inside
    rcases inside with first | later
    · exact accepts_conjuncts r f ok.1 g first
    · exact acceptsAll_conjuncts r rest ok.2 g later
end

end Filter

section
variable [Host] (schema : CollectionSchema) (idx : CollectionIndexes) (stats : Option CollectionStats) (rows : Nat)

def Seeded (conjuncts : List Filter) (cand : Candidate) : Prop :=
  (∃ f v, .compare f .eq v ∈ conjuncts ∧ idx.hasEqualityIndex f = true ∧
    cand = equalityCandidate schema stats rows f v) ∨
  (∃ f query, .containsText f query ∈ conjuncts ∧ idx.hasTextIndex f = true ∧
    cand = textCandidate stats rows f query)

private theorem seeded_append (left right : List Filter) (cand : Candidate) :
    Seeded schema idx stats rows (left ++ right) cand ↔
      Seeded schema idx stats rows left cand ∨ Seeded schema idx stats rows right cand := by
  simp only [Seeded,List.mem_append,or_and_right,exists_or]
  exact or_or_or_comm

mutual
theorem mem_collectCandidates (cand : Candidate) : (filter : Filter) →
    (cand ∈ collectCandidates schema idx stats rows filter ↔ Seeded schema idx stats rows filter.conjuncts cand)
  | .and filters => by
    rw [collectCandidates,Filter.conjuncts]
    exact mem_collectAll cand filters
  | .compare f .eq v => by
    rw [collectCandidates]
    split <;> rename_i indexed <;> simp [Seeded,Filter.conjuncts,indexed]
  | .containsText f query => by
    rw [collectCandidates]
    split <;> rename_i indexed <;> simp [Seeded,Filter.conjuncts,indexed]
  | .or _ | .not _ | .contains _ _ | .present _ | .compare _ .ne _ | .compare _ .lt _ | .compare _ .lte _
  | .compare _ .gt _ | .compare _ .gte _ | .compare _ .isIn _ => by
    simp [collectCandidates,Seeded,Filter.conjuncts]

theorem mem_collectAll (cand : Candidate) : (filters : List Filter) →
    (cand ∈ collectAll schema idx stats rows filters ↔ Seeded schema idx stats rows (Filter.conjunctsAll filters) cand)
  | [] => by simp [collectAll,Seeded,Filter.conjunctsAll]
  | f::rest => by
    rw [collectAll,Filter.conjunctsAll,List.mem_append,seeded_append,mem_collectCandidates cand f,
      mem_collectAll cand rest]
end

end

def FindQuery.conjuncts (q : FindQuery) : List Filter := q.filter.elim [] Filter.conjuncts

theorem mem_candidates [Host] (schema : CollectionSchema) (idx : CollectionIndexes)
    (stats : Option CollectionStats) (rows : Nat) (q : FindQuery) (cand : Candidate) :
    cand ∈ candidates schema idx stats rows q.filter ↔
      Seeded schema idx stats rows q.conjuncts cand ∨ cand = .costed .scan rows := by
  rw [candidates,List.mem_append,List.mem_singleton,FindQuery.conjuncts]
  cases q.filter with
  | none => simp [Seeded]
  | some filter => rw [Option.elim_some,Option.elim_some,mem_collectCandidates]

namespace CollectionIndexes
variable [Host]

/-- The key under which the index that answers an equality on a field has a record. -/
def keyUnder (idx : CollectionIndexes) (f : String) (r : Record) : Option String :=
  if idx.uniqueMaps.contains f || idx.secondaryMaps.contains f then fieldKey f r else pathKey f r

theorem Agrees.lookupEq {idx : CollectionIndexes} {live : Live} (agrees : Agrees idx live) (f : String)
    (v : Value) (indexed : idx.hasEqualityIndex f = true) : ∃ ids, idx.lookupEq f v = some ids ∧ ids.Nodup ∧
      ∀ i, i ∈ ids ↔ (live i).bind (idx.keyUnder f) = some (indexKey v) := by
  have key : idx.keyUnder f = if idx.uniqueMaps[f]?.isSome || idx.secondaryMaps[f]?.isSome then fieldKey f
      else pathKey f := by
    funext r
    simp only [keyUnder,ExtTreeMap.contains_eq_isSome_getElem?]
    split <;> rfl
  rw [key]
  simp only [hasEqualityIndex,ExtTreeMap.contains_eq_isSome_getElem?,Bool.or_eq_true] at indexed
  unfold CollectionIndexes.lookupEq
  cases unique : idx.uniqueMaps[f]? with
  | some m =>
    refine ⟨_,rfl,?_,?_⟩
    · cases m[indexKey v]? <;> simp
    · intro i
      rw [Option.mem_toList]
      exact agrees.unique f m unique (indexKey v) i
  | none =>
    cases secondary : idx.secondaryMaps[f]? with
    | some m =>
      obtain ⟨distinct,members⟩ := agrees.secondary f m secondary (indexKey v)
      exact ⟨_,rfl,distinct,members⟩
    | none =>
      cases docPath : idx.docPathMaps[f]? with
      | some m =>
        obtain ⟨distinct,members⟩ := agrees.docPath f m docPath (indexKey v)
        exact ⟨_,rfl,distinct,members⟩
      | none => simp [unique,secondary,docPath] at indexed

end CollectionIndexes

namespace Source

def matching [Host] (src : Source) (q : FindQuery) : List Record :=
  (src.scan q.collection).filter (Filter.optional q.filter)

structure Coherent [Host] (src : Source) (c : String) (schema : CollectionSchema) (idx : CollectionIndexes) :
    Prop where
  declared : src.schema c = some schema
  indexes : src.indexes c = some idx
  shape : CollectionIndexes.SameShape idx (.fromSchema schema)
  agrees : idx.Agrees (src.get c)
  ids : ((src.scan c).map (·.id)).Nodup
  scanned : ∀ r, r ∈ src.scan c ↔ src.get c r.id = some r
  keyed : ∀ i r, src.get c i = some r → r.id = i

variable [Host] {src : Source} {schema : CollectionSchema} {idx : CollectionIndexes} {q : FindQuery}
section
variable (coherent : Coherent src q.collection schema idx)
include coherent

theorem Coherent.keeps_iff (i : RecordId) :
    keeps src q.collection q.filter i = true ↔ i ∈ (src.matching q).map (·.id) := by
  simp only [keeps,matching,List.mem_map,List.mem_filter]
  constructor
  · intro kept
    split at kept
    · rename_i r found
      have own := coherent.keyed i r found
      refine ⟨r,⟨(coherent.scanned r).mpr ?_,kept⟩,own⟩
      rw [own,found]
    · cases kept
  · rintro ⟨r,⟨listed,accepted⟩,rfl⟩
    rw [(coherent.scanned r).mp listed]
    exact accepted

theorem Coherent.matching_ids :
    ((src.matching q).map (·.id)).Nodup := coherent.ids.sublist (List.filter_sublist.map _)

theorem Coherent.filtered_perm_iff (found : List Scored) (distinct : (found.map (·.id)).Nodup) :
    ((found.filter (fun cand => keeps src q.collection q.filter cand.id)).map (·.id)).Perm
        ((src.matching q).map (·.id)) ↔
      ∀ r ∈ src.matching q, r.id ∈ found.map (·.id) := by
  have kept (i : RecordId) :
      i ∈ (found.filter (fun cand => keeps src q.collection q.filter cand.id)).map (·.id) ↔
        i ∈ found.map (·.id) ∧ i ∈ (src.matching q).map (·.id) := by
    rw [← coherent.keeps_iff]
    simp only [List.mem_map,List.mem_filter]
    constructor
    · rintro ⟨cand,⟨inside,passes⟩,rfl⟩
      exact ⟨⟨cand,inside,rfl⟩,passes⟩
    · rintro ⟨⟨cand,inside,rfl⟩,passes⟩
      exact ⟨cand,⟨inside,passes⟩,rfl⟩
  rw [List.perm_ext_iff_of_nodup (distinct.sublist (List.filter_sublist.map _)) coherent.matching_ids]
  constructor
  · intro same r accepted
    exact ((kept r.id).mp ((same r.id).mpr (List.mem_map.mpr ⟨r,accepted,rfl⟩))).1
  · intro complete i
    rw [kept]
    constructor
    · exact And.right
    · intro listed
      obtain ⟨r,accepted,rfl⟩ := List.mem_map.mp listed
      exact ⟨complete r accepted,listed⟩

end

end Source

/-- No ranked clause, no limit, no offset, no includes and no deadline. -/
structure FindQuery.FilterOnly (q : FindQuery) : Prop where
  plain : q.ranked = false
  unlimited : q.limit = none
  fromStart : q.offset = none
  bare : q.includes = []
  untimed : q.timeoutMs = none

theorem FindQuery.FilterOnly.clauses {q : FindQuery} (only : q.FilterOnly) :
    q.vector = none ∧ q.textSearch = none ∧ q.hybrid = none := by
  have plain := only.plain
  simp only [FindQuery.ranked,Bool.or_eq_false_iff,Option.isSome_eq_false_iff,Option.isNone_iff_eq_none] at plain
  exact ⟨plain.1.1,plain.1.2,plain.2⟩

structure FindQuery.Whole (q : FindQuery) : Prop where
  unlimited : q.limit = none
  fromStart : q.offset = none
  unfused : q.hybrid = none
  bare : q.includes = []
  unmarked : q.snippet = none ∨ q.textSearch = none

theorem FindQuery.FilterOnly.whole {q : FindQuery} (only : q.FilterOnly) : q.Whole :=
  ⟨only.unlimited,only.fromStart,only.clauses.2.2,only.bare,.inr only.clauses.2.1⟩

section

theorem Deadline.check_unlimited {d : Deadline} (unlimited : d.limitMs = 0) (poll : Poll) : d.check poll = .ok () := by
  simp [Deadline.check,unlimited]

variable [Host] [Ranked] {src : Source} {schema : CollectionSchema} {idx : CollectionIndexes} {q : FindQuery}

omit [Ranked] in
theorem filterCandidates_unlimited {d : Deadline} (unlimited : d.limitMs = 0) (i : Nat) (found : List Scored) :
    filterCandidates src q d i found = .ok (found.filter (fun cand => keeps src q.collection q.filter cand.id)) := by
  induction found generalizing i with
  | nil => rfl
  | cons cand rest ih =>
    have passes : d.checkAt Poll.candidate i = .ok () := by
      simp [Deadline.checkAt,Deadline.check_unlimited unlimited]
    rw [filterCandidates,passes,ih,List.filter_cons]
    rfl

omit [Host] [Ranked] in
theorem orderMatched_perm (access : Access) (found : List Scored) : (orderMatched src q access found).Perm found := by
  unfold orderMatched
  split
  · exact List.perm_insertionSort _ _
  · split
    · exact .refl _
    · exact List.perm_insertionSort _ _

theorem findVia_unlimited {d : Deadline} (unlimited : d.limitMs = 0) (whole : q.Whole) (access : Access)
    (found : List Scored) (selected : selectCandidates src idx q access = .ok found) :
    ∃ ordered, findVia src q d idx access = .ok ordered ∧
      ordered.Perm (found.filter (fun cand => keeps src q.collection q.filter cand.id)) := by
  refine ⟨orderMatched src q access (found.filter (fun cand => keeps src q.collection q.filter cand.id)),?_,
    orderMatched_perm access _⟩
  have all (found : List Scored) : page q found = found := by
    simp [page,whole.unlimited,whole.fromStart,whole.unfused]
  simp only [findVia,Deadline.check_unlimited unlimited,selected,filterCandidates_unlimited unlimited,all]
  rfl

theorem materializeRows_bare (whole : q.Whole) (found : List Scored)
    (held : ∀ cand ∈ found, ∃ r, src.get q.collection cand.id = some r) (rank : Nat) :
    ∃ rows, materializeRows src schema q rank found = .ok rows ∧ rows.map (·.id) = found.map (·.id) ∧
      ∀ row ∈ rows, ∃ r, src.get q.collection row.id = some r ∧ row.fields = project q.projection r.fields := by
  induction found generalizing rank with
  | nil => exact ⟨[],rfl,rfl,by simp⟩
  | cons cand rest ih =>
    obtain ⟨r,isLive⟩ := held cand (by simp)
    obtain ⟨rows,made,ids,shown⟩ := ih (fun other inside => held other (by simp [inside])) (rank + 1)
    have bare : hydrateAll src schema q r = .ok ∅ := by simp [hydrateAll,whole.bare,pure,Except.pure]
    have noSnippets : buildRowSnippets q r = .ok [] := by
      rcases whole.unmarked with none | none <;> simp [buildRowSnippets,none,whole.unfused]
    refine ⟨⟨cand.id,project q.projection r.fields,cand.score,cand.textScore,cand.vectorScore,
      if q.ranked then some (rank + 1) else none,∅,[]⟩::rows,?_,?_,?_⟩
    · simp only [materializeRows,isLive,bare,noSnippets,made]
      rfl
    · rw [List.map_cons,List.map_cons,ids]
    · intro row inside
      rcases List.mem_cons.mp inside with rfl | later
      · exact ⟨r,isLive,rfl⟩
      · exact shown row later

private theorem equalityCandidate_selected (stats : Option CollectionStats) (rows : Nat) (f : String) (v : Value) :
    selectCandidates src idx q (equalityCandidate schema stats rows f v).access =
      .ok (((idx.lookupEq f v).getD []).map Scored.plain) := by
  unfold equalityCandidate
  split
  · rfl
  · split <;> rfl

/-- Every record the filter accepts is indexed under the key of each value that an
index is asked for. -/
def KeysFound (src : Source) (idx : CollectionIndexes) (q : FindQuery) : Prop :=
  ∀ f v, Filter.compare f .eq v ∈ q.conjuncts → idx.hasEqualityIndex f = true →
    ∀ r ∈ src.matching q, idx.keyUnder f r = some (indexKey v)

/-- Along each candidate of the planner the ids are those of the records that the filter accepts; the rows, the
count and the existence test agree. -/
structure PathIndependent (src : Source) (schema : CollectionSchema) (idx : CollectionIndexes) (q : FindQuery) :
    Prop where
  paths : ∀ stats rows, ∀ cand ∈ candidates schema idx stats rows q.filter, ∀ elapsed,
    ∃ found, findVia src q (.afterMs q.timeoutMs elapsed) idx cand.access = .ok found ∧
      (found.map (·.id)).Perm ((src.matching q).map (·.id))
  rows : ∀ elapsed, ∃ rows, find src q elapsed = .ok rows ∧
    (rows.map (·.id)).Perm ((src.matching q).map (·.id)) ∧
      ∀ row ∈ rows, ∃ r ∈ src.matching q, r.id = row.id ∧ row.fields = project q.projection r.fields
  count : executeCount src ⟨q.collection,q.filter⟩ = .ok (src.matching q).length
  exist : executeExists src ⟨q.collection,q.filter⟩ = .ok (!(src.matching q).isEmpty)

namespace Source.Coherent
variable (coherent : Source.Coherent src q.collection schema idx)
include coherent

omit [Ranked] in
theorem text_complete (valid : schema.validateDefinition = .ok ()) {f query : String}
    (asked : Filter.containsText f query ∈ q.conjuncts) (t : TextIndex) (indexed : idx.textMaps[f]? = some t)
    (r : Record) (accepted : r ∈ src.matching q) : r.id ∈ (TextIndex.search t query).map Prod.fst := by
  obtain ⟨listed,passes⟩ := List.mem_filter.mp accepted
  have isLive := (coherent.scanned r).mp listed
  have text : Filter.accepts r (.containsText f query) = true := by
    cases given : q.filter with
    | none => simp [FindQuery.conjuncts,given] at asked
    | some filter =>
      simp only [FindQuery.conjuncts,given,Option.elim_some] at asked
      simp only [Filter.optional,given,Option.elim_some] at passes
      exact Filter.accepts_conjuncts r filter passes _ asked
  have declared : f ∈ schema.fullTextIndexes := by
    rw [← CollectionIndexes.fromSchema_textMaps,← coherent.shape.text,indexed]
    rfl
  rw [Filter.accepts,Record.getPath_no_dot r f (CollectionSchema.fullText_undotted valid declared)] at text
  have words := coherent.agrees.text f t indexed
  split at text
  · rename_i body isText
    have tokens : textWords f r = tokenize body := by
      obtain ⟨v,held,asText⟩ := Option.bind_eq_some_iff.mp isText
      cases v <;> simp only [Value.asText,reduceCtorEq,Option.some.injEq] at asText
      subst asText
      rw [textWords,held]
      rfl
    simp only [hasAllTerms,Bool.and_eq_true,Bool.not_eq_true',List.isEmpty_eq_false_iff,List.all_eq_true,
      List.contains_iff_mem] at text
    refine TextIndex.mem_search t query r.id text.1 ?_
    intro w inside
    rw [words.frequency w r.id,isLive,Option.elim_some,tokens,if_pos (text.2 w inside)]
    rfl
  · cases text

theorem selected (valid : schema.validateDefinition = .ok ()) (keys : KeysFound src idx q)
    {stats : Option CollectionStats} {rows : Nat} {cand : Candidate}
    (inside : cand ∈ candidates schema idx stats rows q.filter) :
    ∃ found, selectCandidates src idx q cand.access = .ok found ∧ (found.map (·.id)).Nodup ∧
      ∀ r ∈ src.matching q, r.id ∈ found.map (·.id) := by
  rcases (mem_candidates schema idx stats rows q cand).mp inside with
    (⟨f,v,asked,indexed,rfl⟩ | ⟨f,query,asked,indexed,rfl⟩) | rfl
  · obtain ⟨ids,looked,distinct,members⟩ := coherent.agrees.lookupEq f v indexed
    have same : (ids.map Scored.plain).map (·.id) = ids := by
      rw [List.map_map]
      exact List.map_id ids
    refine ⟨ids.map Scored.plain,?_,?_,?_⟩
    · rw [equalityCandidate_selected,looked,Option.getD_some]
    · rwa [same]
    · intro r accepted
      rw [same,members,(coherent.scanned r).mp (List.mem_filter.mp accepted).1]
      exact keys f v asked indexed r accepted
  · rw [CollectionIndexes.hasTextIndex,ExtTreeMap.contains_eq_isSome_getElem?] at indexed
    obtain ⟨t,held⟩ := Option.isSome_iff_exists.mp indexed
    have same : ((TextIndex.search t query).map (fun p => Scored.ranked p.1 p.2)).map (·.id) =
        (TextIndex.search t query).map Prod.fst := by
      rw [List.map_map]
      rfl
    refine ⟨(TextIndex.search t query).map (fun p => Scored.ranked p.1 p.2),?_,?_,?_⟩
    · simp only [textCandidate,Candidate.costed,selectCandidates,CollectionIndexes.textSearch,held]
      rfl
    · rw [same]
      exact TextIndex.nodup_searchOver _ _ _
    · intro r accepted
      rw [same]
      exact coherent.text_complete valid asked t held r accepted
  · have same : ((src.scan q.collection).map (fun r => Scored.plain r.id)).map (·.id) =
        (src.scan q.collection).map (·.id) := by
      rw [List.map_map]
      rfl
    refine ⟨_,rfl,?_,?_⟩
    · rw [same]
      exact coherent.ids
    · intro r accepted
      rw [same]
      exact List.mem_map.mpr ⟨r,(List.mem_filter.mp accepted).1,rfl⟩

section
variable (only : q.FilterOnly) (valid : schema.validateDefinition = .ok ()) (keys : KeysFound src idx q)
include only valid keys

private theorem findVia_perm (stats : Option CollectionStats) (rows : Nat) (cand : Candidate)
    (inside : cand ∈ candidates schema idx stats rows q.filter) (elapsed : Stopwatch) :
    ∃ found, findVia src q (.afterMs q.timeoutMs elapsed) idx cand.access = .ok found ∧
      (found.map (·.id)).Perm ((src.matching q).map (·.id)) := by
  obtain ⟨fetched,selected,distinct,complete⟩ := coherent.selected valid keys inside
  have unlimited : (Deadline.afterMs q.timeoutMs elapsed).limitMs = 0 := by simp [Deadline.afterMs,only.untimed]
  obtain ⟨found,ran,ordered⟩ := findVia_unlimited unlimited only.whole cand.access fetched selected
  exact ⟨found,ran,(ordered.map _).trans ((coherent.filtered_perm_iff fetched distinct).mpr complete)⟩

private theorem find_perm (elapsed : Stopwatch) :
    ∃ rows, find src q elapsed = .ok rows ∧ (rows.map (·.id)).Perm ((src.matching q).map (·.id)) ∧
      ∀ row ∈ rows, ∃ r ∈ src.matching q, r.id = row.id ∧ row.fields = project q.projection r.fields := by
  have planned := planFind_mem q schema idx (src.stats q.collection)
    (if (src.stats q.collection).isSome then 0 else (src.scan q.collection).length) only.plain
  obtain ⟨found,ran,ids⟩ := coherent.findVia_perm only valid keys _ _ _ planned elapsed
  obtain ⟨noVector,noText,noHybrid⟩ := only.clauses
  have accepted : q.validateSearchClauses = .ok () := by
    simp [FindQuery.validateSearchClauses,noVector,noText,noHybrid]
  have executed : executeFind src q (.afterMs q.timeoutMs elapsed) = .ok found := by
    simp only [executeFind,accepted,Source.requireSchema,coherent.declared,Source.requireIndexes,coherent.indexes]
    exact ran
  have matched (i : RecordId) (inside : i ∈ found.map (·.id)) : ∃ r ∈ src.matching q, r.id = i ∧
      src.get q.collection i = some r := by
    obtain ⟨r,accepted,rfl⟩ := List.mem_map.mp (ids.mem_iff.mp inside)
    exact ⟨r,accepted,rfl,(coherent.scanned r).mp (List.mem_filter.mp accepted).1⟩
  have held (cand : Scored) (inside : cand ∈ found) : ∃ r, src.get q.collection cand.id = some r := by
    obtain ⟨r,_,_,isLive⟩ := matched cand.id (List.mem_map.mpr ⟨cand,inside,rfl⟩)
    exact ⟨r,isLive⟩
  obtain ⟨rows,made,same,shown⟩ := @materializeRows_bare _ _ src schema q only.whole found held 0
  refine ⟨rows,?_,by rwa [same],?_⟩
  · simp only [find,executed,materialize,Source.requireSchema,coherent.declared]
    exact made
  · intro row inside
    obtain ⟨r,isLive,fields⟩ := shown row inside
    obtain ⟨r',accepted,own,isLive'⟩ := matched row.id (same ▸ List.mem_map.mpr ⟨row,inside,rfl⟩)
    obtain rfl : r = r' := Option.some.inj (isLive.symm.trans isLive')
    exact ⟨r,accepted,own,fields⟩

end

private theorem keysFound_of_paths (only : q.FilterOnly) (paths : PathIndependent src schema idx q) :
    KeysFound src idx q := by
  intro f v asked indexed r accepted
  obtain ⟨ids,looked,distinct,members⟩ := coherent.agrees.lookupEq f v indexed
  have same : (ids.map Scored.plain).map (·.id) = ids := by
    rw [List.map_map]
    exact List.map_id ids
  have seeded : equalityCandidate schema none 0 f v ∈ candidates schema idx none 0 q.filter :=
    (mem_candidates schema idx none 0 q _).mpr (.inl (.inl ⟨f,v,asked,indexed,rfl⟩))
  obtain ⟨found,ran,exact_ids⟩ := paths.paths none 0 _ seeded (fun _ => 0)
  have fetched : selectCandidates src idx q (equalityCandidate schema none 0 f v).access =
      .ok (ids.map Scored.plain) := by
    rw [equalityCandidate_selected,looked,Option.getD_some]
  have unlimited : (Deadline.afterMs q.timeoutMs (fun _ => 0)).limitMs = 0 := by
    simp [Deadline.afterMs,only.untimed]
  obtain ⟨found',ran',ordered⟩ := findVia_unlimited unlimited only.whole _ _ fetched
  obtain rfl : found = found' := Except.ok.inj (ran.symm.trans ran')
  have complete := (coherent.filtered_perm_iff _ (by rwa [same])).mp ((ordered.map _).symm.trans exact_ids)
  have listed := complete r accepted
  rw [same,members,(coherent.scanned r).mp (List.mem_filter.mp accepted).1] at listed
  exact listed

theorem pathIndependent (only : q.FilterOnly) (valid : schema.validateDefinition = .ok ()) :
    PathIndependent src schema idx q ↔ KeysFound src idx q := by
  constructor
  · exact coherent.keysFound_of_paths only
  · intro keys
    refine ⟨coherent.findVia_perm only valid keys,coherent.find_perm only valid keys,?_,?_⟩
    · simp only [executeCount,Source.requireSchema,coherent.declared]
      rfl
    · have some_matching : (src.scan q.collection).any (Filter.optional q.filter) = !(src.matching q).isEmpty := by
        rw [Source.matching,Bool.eq_iff_iff]
        simp
      simp only [executeExists,Source.requireSchema,coherent.declared]
      exact congrArg Except.ok some_matching

end Source.Coherent

end

end AuraDb
