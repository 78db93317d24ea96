import AuraDb.Index.Agreement
import AuraDb.Query.Retrieval

/-! Text search under an analyzer. A per-token analyzer searches a view of the postings; the keyword analyzer
confirms whole fields among the records that the default tokens gather. -/
namespace AuraDb
open Library Library.Inverted Library.Ieee754 Std AnalyzerPreset TextIndex
variable {text : String} {term : String} {c : Char}

def mapped (preset : AnalyzerPreset) (token : String) : List String := (preset.mapDefaultToken token).getD []

theorem analyzedView_eq (t : TextIndex) (preset : AnalyzerPreset) : t.analyzedView preset =
    if preset = .keyword then none else some (WordIndex.regroup (mapped preset) t.postings) := by
  by_cases whole : preset = .keyword
  · rw [analyzedView,if_pos whole,whole]
    rfl
  · have perToken : preset.isPerToken = true := by simp [isPerToken,whole]
    have total (token : String) : preset.mapDefaultToken token = some (mapped preset token) := by
      rw [mapped]
      cases preset with
      | keyword => exact absurd rfl whole
      | englishBasic =>
        rw [mapDefaultToken]
        split <;> rfl
      | _ => rfl
    simp only [analyzedView,perToken,total,if_neg whole]
    exact List.foldlM_pure ..

def indexOf (terms : String → List String) (corpus : ExtTreeMap RecordId String compare) : TextIndex :=
  corpus.toList.foldr (fun p t => WordIndex.add t p.1 (terms p.2)) WordIndex.empty

theorem indexOf_agrees (terms : String → List String) (corpus : ExtTreeMap RecordId String compare) :
    WordIndex.Agrees (indexOf terms corpus) (fun i => corpus[i]?.elim [] terms) := by
  have general (l : List (RecordId × String)) (distinct : (l.map Prod.fst).Nodup) (words : RecordId → List String)
      (listed : ∀ p ∈ l, words p.1 = terms p.2) (others : ∀ i ∉ l.map Prod.fst, words i = []) :
      WordIndex.Agrees (l.foldr (fun p (t : TextIndex) => WordIndex.add t p.1 (terms p.2)) WordIndex.empty) words := by
    induction l generalizing words with
    | nil => exact (funext fun i => others i (by simp) : words = fun _ => []) ▸ WordIndex.agrees_empty
    | cons p rest ih =>
      obtain ⟨apart,distinct⟩ := List.nodup_cons.mp distinct
      have kept := (ih distinct (Function.update words p.1 []) ?_ ?_).add p.1 (terms p.2) (Function.update_self ..)
      · rwa [Function.update_idem,Function.update_eq_self_iff.mpr (listed p List.mem_cons_self).symm] at kept
      · intro q inside
        rw [Function.update_of_ne fun (same : q.1 = p.1) => apart (same ▸ List.mem_map_of_mem inside)]
        exact listed q (List.mem_cons_of_mem _ inside)
      · intro i outside
        by_cases own : i = p.1
        · rw [own,Function.update_self]
        · rw [Function.update_of_ne own]
          exact others i (by simpa [own] using outside)
  refine general _ (TreeMap.keys_nodup corpus) _ ?_ ?_
  · intro p inside
    rw [ExtTreeMap.mem_toList_iff_getElem?_eq_some.mp inside,Option.elim_some]
  · intro i outside
    cases held : corpus[i]? with
    | none => rfl
    | some text => exact absurd (List.mem_map.mpr ⟨_,ExtTreeMap.mem_toList_iff_getElem?_eq_some.mpr held,rfl⟩) outside

section
variable [Host] {live : Live} {field : String}

theorem splitRuns_eq (run : Option (List Char)) (cs : List Char) (started : run ≠ some []) : splitRuns run cs =
    ((splitChars (fun c => !Host.isAlphanumeric c) cs).modifyHead (run.getD [] ++ ·)).filter (!·.isEmpty) := by
  induction cs generalizing run with
  | nil =>
    rcases run with _ | _ | _
    · rfl
    · exact absurd rfl started
    · simp [splitRuns,splitChars]
  | cons c cs ih =>
    obtain ⟨part,parts,same⟩ := splitChars_eq (fun c => !Host.isAlphanumeric c) cs
    rw [splitRuns,splitChars,same]
    cases Host.isAlphanumeric c with
    | true =>
      rw [if_pos rfl,ih _ (by simp),same]
      simp
    | false =>
      rw [if_neg (by simp),ih none (by simp),same]
      rcases run with _ | _ | _
      · simp
      · exact absurd rfl started
      · simp

theorem runTerms_eq (text : String) : runTerms text = tokenize text := by
  obtain ⟨part,parts,same⟩ := splitChars_eq (fun c => !Host.isAlphanumeric c) text.toList
  rw [runTerms,splitRuns_eq none _ (by simp),tokenize,List.map_map,same]
  rfl

def fieldText (live : Live) (field : String) (i : RecordId) : Option String :=
  ((live i).bind (·.fields.get field)).bind Value.asText

theorem textWords_fieldText {i : RecordId}
    (held : fieldText live field i = some text) : (live i).elim [] (textWords field) = tokenize text := by
  obtain ⟨value,found,isText⟩ := Option.bind_eq_some_iff.mp held
  obtain ⟨r,isLive,found⟩ := Option.bind_eq_some_iff.mp found
  cases value <;> simp only [Value.asText,reduceCtorEq,Option.some.injEq] at isText
  subst isText
  rw [isLive,Option.elim_some,textWords,found]
  rfl

variable [Platform] {t : TextIndex} {query : String}

theorem flatMap_mapped {preset : AnalyzerPreset} (perToken : preset ≠ .keyword) (text : String) :
    (tokenize text).flatMap (mapped preset) = preset.indexTerms text := by
  rw [indexTerms.eq_def,← runTerms_eq]
  cases preset with
  | keyword => exact absurd rfl perToken
  | default | simple => exact List.flatMap_singleton' _
  | asciiFold => exact (List.map_eq_flatMap ..).symm
  | englishBasic =>
    induction runTerms text with
    | nil => rfl
    | cons token rest ih =>
      rw [List.flatMap_cons,ih,List.filter_cons,mapped,mapDefaultToken]
      cases isEnglishStopword token <;> rfl

/-- The analyzed view of an index of default tokens is searched as an index of the analyzer's own terms. -/
theorem analyzed_view_equivalent (preset : AnalyzerPreset) (corpus : ExtTreeMap RecordId String compare)
    (terms : List String) :
    match (indexOf tokenize corpus).analyzedView preset with
    | none => preset = .keyword
    | some view => (∀ text, (tokenize text).flatMap (mapped preset) = preset.indexTerms text) ∧
        searchOver (indexOf tokenize corpus) view terms =
          searchOver (indexOf preset.indexTerms corpus) (indexOf preset.indexTerms corpus).postings terms := by
  rw [analyzedView_eq]
  split
  · rename_i none
    by_contra perToken
    rw [if_neg perToken] at none
    cases none
  · rename_i view made
    have perToken : preset ≠ .keyword := by
      rintro rfl
      cases made
    obtain rfl := Option.some.inj ((if_neg perToken).symm.trans made)
    refine ⟨flatMap_mapped perToken,?_⟩
    have same (w : String) (i : RecordId) :
        WordIndex.frequency (WordIndex.regroup (mapped preset) (indexOf tokenize corpus).postings) w i =
          WordIndex.frequency (indexOf preset.indexTerms corpus).postings w i := by
      rw [(indexOf_agrees tokenize corpus).regrouped,(indexOf_agrees preset.indexTerms corpus).counted]
      cases corpus[i]? with
      | none => rfl
      | some text => exact congrArg (fun terms => WordIndex.counted (List.count w terms)) (flatMap_mapped perToken text)
    simp only [searchOver,matched_eq,WordIndex.gather_congr same]

/-- The whole field of the record normalises to the keyword term of the query. -/
def SameKeyword (live : Live) (field query : String) (i : RecordId) : Prop :=
  ∃ text term, fieldText live field i = some text ∧ keyword.indexTerms text = [term] ∧ keyword.indexTerms query = [term]

theorem keyword_head : (keyword.indexTerms text).head? = some term ↔ keyword.indexTerms text = [term] := by
  simp only [indexTerms]
  split <;> simp

theorem mem_bm25Search {words : RecordId → List String} (agrees : WordIndex.Agrees t words)
    (nonzero : ∀ n, 0 < n → (Host.f32OfNat n).eq ⟨0⟩ = false) (asked : tokenize query ≠ []) (k1 b : F32)
    (i : RecordId) : i ∈ (t.bm25Search query true k1 b).map Prod.fst ↔ ∀ w ∈ tokenize query, w ∈ words i := by
  have listed (w : String) : w ∈ distinctTerms (tokenize query) ↔ w ∈ tokenize query := by
    rw [distinctTerms,List.mem_dedup,List.mem_insertionSort]
  obtain ⟨first,rest,terms⟩ := List.exists_cons_of_ne_nil asked
  have some_term : distinctTerms (tokenize query) ≠ [] := List.ne_nil_of_mem ((listed first).mpr (by simp [terms]))
  cases counted : (Host.f32OfNat t.lengths.size).eq ⟨0⟩ with
  | false =>
    rw [bm25Search,mem_bm25Over t _ some_term counted]
    refine forall_congr' fun w => ?_
    rw [listed,agrees.frequency]
    by_cases inside : w ∈ words i <;> simp [inside]
  | true =>
    have empty : words i = [] := by
      by_contra filled
      have length := agrees.lengths i
      rw [if_neg filled] at length
      have known : i ∈ t.lengths := ExtTreeMap.mem_iff_isSome_getElem?.mpr (by rw [length]; rfl)
      rw [nonzero _ (Nat.pos_of_ne_zero fun none =>
        by simp [ExtTreeMap.eq_empty_iff_size_eq_zero.mpr none] at known)] at counted
      cases counted
    simp only [bm25Search,bm25Over,counted,Bool.or_true,if_true,empty]
    exact ⟨by simp,fun all => absurd (all first (by simp [terms])) (by simp)⟩

theorem mem_keywordCandidates {idx : CollectionIndexes}
    (agrees : idx.Agrees live) (indexed : idx.textMaps[field]? = some t)
    (nonzero : ∀ n, 0 < n → (Host.f32OfNat n).eq ⟨0⟩ = false) (asked : tokenize query ≠ []) (k1 b : F32) :
    ∃ found, keywordCandidates idx live field query k1 b = .ok found ∧ ∀ i, i ∈ found.map Prod.fst ↔
      SameKeyword live field query i ∧ ∀ text, fieldText live field i = some text →
        ∀ w ∈ tokenize query, w ∈ tokenize text := by
  unfold keywordCandidates
  cases head : (keyword.indexTerms query).head? with
  | none =>
    refine ⟨[],rfl,?_⟩
    rintro i
    refine ⟨by simp,?_⟩
    rintro ⟨⟨text,term,_,_,same⟩,_⟩
    rw [same] at head
    cases head
  | some term =>
    have asks := keyword_head.mp head
    simp only [CollectionIndexes.textBm25Search,indexed]
    refine ⟨_,rfl,?_⟩
    intro i
    have gathered := mem_bm25Search (agrees.text field t indexed) nonzero asked k1 b i
    rw [((List.perm_insertionSort _ _).map _).mem_iff,List.map_map]
    simp only [List.mem_map,List.mem_filter]
    constructor
    · rintro ⟨p,⟨inside,passed⟩,rfl⟩
      split at passed
      · rename_i text found
        have held : fieldText live field p.1 = some text := by rw [fieldText,found]; rfl
        refine ⟨⟨text,term,held,keyword_head.mp (beq_iff_eq.mp passed),asks⟩,?_⟩
        intro other held'
        rw [← textWords_fieldText held']
        exact gathered.mp (List.mem_map.mpr ⟨p,inside,rfl⟩)
      · cases passed
    · rintro ⟨⟨text,term',held,same,asks'⟩,all⟩
      obtain rfl := List.singleton_inj.mp (asks.symm.trans asks')
      obtain ⟨p,inside,rfl⟩ := List.mem_map.mp (gathered.mpr (textWords_fieldText held ▸ all text held))
      refine ⟨p,⟨inside,?_⟩,rfl⟩
      obtain ⟨value,found,isText⟩ := Option.bind_eq_some_iff.mp held
      cases value <;> simp only [Value.asText,reduceCtorEq,Option.some.injEq] at isText
      subst isText
      simp only [found,beq_iff_eq]
      exact keyword_head.mpr same

/-- A keyword search returns the records whose whole field has the term of the query, exactly where each of them
has every default token of the query. -/
theorem keyword_search_exact_iff {idx : CollectionIndexes} {live : Live} {ts : TextSearch} {t : TextIndex}
    (agrees : idx.Agrees live) (indexed : idx.textMaps[ts.field]? = some t)
    (nonzero : ∀ n, 0 < n → (Host.f32OfNat n).eq ⟨0⟩ = false) (analyzer : ts.analyzer = some "keyword")
    (asked : tokenize ts.query ≠ []) :
    ∃ found, rankedTextCandidates idx live ts = .ok found ∧
      ((∀ i, i ∈ found.map (·.id) ↔ SameKeyword live ts.field ts.query i) ↔
        ∀ i text, SameKeyword live ts.field ts.query i → fieldText live ts.field i = some text →
          ∀ w ∈ tokenize ts.query, w ∈ tokenize text) := by
  obtain ⟨found,searched,listed⟩ := mem_keywordCandidates agrees indexed nonzero asked (ts.k1.getD bm25DefaultK1)
    (ts.b.getD bm25DefaultB)
  refine ⟨found.map fun p => Scored.ranked p.1 p.2,?_,?_⟩
  · simp only [rankedTextCandidates,analyzer,requireTerms,List.isEmpty_eq_false_iff.mpr asked]
    simp only [analyzedCandidates,bind,Except.bind,Bool.false_eq_true,if_false,searched]
    rfl
  · rw [List.map_map]
    constructor
    · exact fun exact i text same held => ((listed i).mp ((exact i).mpr same)).2 text held
    · exact fun all i => ⟨fun inside => ((listed i).mp inside).1,
        fun same => (listed i).mpr ⟨same,fun text => all i text same⟩⟩

end

@[reducible] def countingHost : Host := { plainHost with f32OfNat := fun n => if n = 0 then ⟨0⟩ else ⟨0x3f800000⟩ }

def bodyLive (corpus : ExtTreeMap RecordId String compare) : Live :=
  fun i => corpus[i]?.map fun text => ⟨i,"notes",[("body",.text text)],1,0⟩

theorem fieldText_bodyLive (corpus : ExtTreeMap RecordId String compare) (i : RecordId) :
    fieldText (bodyLive corpus) "body" i = corpus[i]? := by
  rw [fieldText,bodyLive]
  cases corpus[i]? <;> rfl

def besides (text : String) : ExtTreeMap RecordId String compare := TreeMap.extend ∅ [(1,text),(2,"foo-bar")]

def bodySearch : TextSearch := ⟨"body","foo bar",.or,.bm25,none,none,some "keyword"⟩

section
attribute [local instance] countingHost lastPlatform

def bodies (corpus : ExtTreeMap RecordId String compare) : CollectionIndexes :=
  ⟨none,[],∅,∅,∅,(∅ : ExtTreeMap String TextIndex compare).insert "body" (indexOf tokenize corpus),∅⟩

theorem bodies_agree (corpus : ExtTreeMap RecordId String compare) : (bodies corpus).Agrees (bodyLive corpus) := by
  refine ⟨by simp [bodies],by simp [bodies],by simp [bodies],?_,by simp [bodies]⟩
  intro f t found
  rcases TreeMap.of_getElem?_insert found with ⟨rfl,rfl⟩ | ⟨_,found⟩
  · have same : (fun i => (bodyLive corpus i).elim [] (textWords "body")) = fun i => corpus[i]?.elim [] tokenize := by
      funext i
      rw [bodyLive]
      cases corpus[i]? <;> rfl
    rw [same]
    exact indexOf_agrees tokenize corpus
  · simp at found

theorem keyword_search_exact_bodies : ∃ found,
    rankedTextCandidates (bodies (besides "foo")) (bodyLive (besides "foo")) bodySearch = .ok found ∧
      ∀ i, i ∈ found.map (·.id) ↔ SameKeyword (bodyLive (besides "foo")) "body" "foo bar" i := by
  have nonzero (n : Nat) (positive : 0 < n) : (Host.f32OfNat n).eq ⟨0⟩ = false := by
    rw [show Host.f32OfNat n = ⟨0x3f800000⟩ from if_neg positive.ne']
    rfl
  obtain ⟨found,searched,exact_iff⟩ := @keyword_search_exact_iff _ _ _ _ bodySearch _ (bodies_agree (besides "foo"))
    (by simp [bodies,bodySearch]; rfl) nonzero rfl (by decide +kernel)
  refine ⟨found,searched,exact_iff.mpr ?_⟩
  have all : ∀ p ∈ (besides "foo").toList, keyword.indexTerms p.2 = ["foobar"] →
      ∀ w ∈ tokenize "foo bar", w ∈ tokenize p.2 := by decide +kernel
  rintro i text ⟨text',term,held',same,asks⟩ held
  obtain rfl := Option.some.inj (held.symm.trans held')
  refine all (i,text) (ExtTreeMap.mem_toList_iff_getElem?_eq_some.mpr ((fieldText_bodyLive _ i).symm.trans held)) ?_
  exact same.trans (asks.symm.trans (by decide +kernel))

/-- The first body has the term of the query and none of its tokens. -/
theorem keyword_search_misses : (bodies (besides "foobar")).Agrees (bodyLive (besides "foobar")) ∧
    (rankedTextCandidates (bodies (besides "foobar")) (bodyLive (besides "foobar")) bodySearch).toOption.map
      (·.map (·.id)) = some [2] ∧ SameKeyword (bodyLive (besides "foobar")) "body" "foo bar" 1 := by
  exact ⟨bodies_agree _,by decide +kernel,"foobar","foobar",by decide +kernel,by decide +kernel,by decide +kernel⟩

end

end AuraDb
