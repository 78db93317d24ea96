import AuraDb.Index.Retrieval
import AuraDb.Query.Exec
import Mathlib.Data.List.Dedup

/-! Candidates of the ranked clauses: exact vector search, text search under an analyzer
and hybrid retrieval. Approximate search and snippets stay functions about which nothing
is assumed. -/
namespace AuraDb
open Library Library.Ieee754 Std

/-- `vector_ann_nearest`, with the parameters `m`, `ef_construction` and `ef_search`. -/
class Approximate where
  annNearest : CollectionIndexes → String → List F32 → Nat → Metric → Nat → Nat → Nat → Result (List Neighbor)

class Snippets where
  rowSnippets : FindQuery → Record → Result (List Json)

inductive VectorMode where
  | exact | annPreview | exactFallback
  deriving DecidableEq, Repr

def annPreviewMinVectors : Nat := 16

def resolveVectorMode (ann : Option AnnParams) (field : String) (vectorCount : Nat) : Result VectorMode :=
  match ann with
  | none => .ok .exact
  | some ann =>
    if annPreviewMinVectors ≤ vectorCount then .ok .annPreview else
    match ann.fallback with
    | .exact => .ok .exactFallback
    | .error => .error (.invalidRequest ("approximate vector preview unavailable on field `" ++ field ++ "`: " ++
        toString vectorCount ++ " indexed vectors is below the minimum of " ++ toString annPreviewMinVectors ++
        "; use exact search or set ann_fallback to \"exact\""))

def TextOperator.requireAll : TextOperator → Bool
  | .and => true
  | .or => false

def bm25DefaultK1 : F32 := ⟨0x3f99999a#32⟩

def bm25DefaultB : F32 := ⟨0x3f400000#32⟩

def rrfK : F32 := ⟨0x42700000#32⟩

section
variable {indexes : CollectionIndexes} {field query : String} {b k1 : F32} {found : List (RecordId × F32)}
  {get : RecordId → Option Record}

def rankMap (scored : List (RecordId × F32)) : ExtTreeMap RecordId Nat compare :=
  TreeMap.extend ∅ (scored.zipIdx.map fun p => (p.1.1,p.2 + 1))

def HybridSearch.check (hs : HybridSearch) : Result Unit :=
  if !(hs.weightText.isFinite && hs.weightVector.isFinite) || hs.weightText.lt ⟨0⟩ || hs.weightVector.lt ⟨0⟩ ||
      (hs.weightText.eq ⟨0⟩ && hs.weightVector.eq ⟨0⟩) then
    .error (.invalidRequest "hybrid weights must be non-negative and not both zero")
  else if hs.topK = 0 then .error (.invalidRequest "hybrid top_k must be >= 1")
  else .ok ()

structure Ranks (found : List Scored) : Prop where
  distinct : (found.map (·.id)).Nodup
  scored : ∀ s ∈ found, s.score.isSome

theorem ranks_map {α : Type} {found : List α} {id : α → RecordId} {score : α → F32}
    (distinct : (found.map id).Nodup) : Ranks (found.map fun a => Scored.ranked (id a) (score a)) where
  distinct := by
    rw [List.map_map]
    exact distinct
  scored := by
    intro s inside
    obtain ⟨a,_,rfl⟩ := List.mem_map.mp inside
    rfl

variable [Host]

def requireTerms (query message : String) : Result Unit :=
  if (tokenize query).isEmpty then .error (.invalidRequest message) else .ok ()

theorem nodup_textSearch (done : indexes.textSearch field query = .ok found) : (found.map Prod.fst).Nodup := by
  unfold CollectionIndexes.textSearch at done
  split at done
  · cases done
  · obtain rfl := Except.ok.inj done
    exact TextIndex.nodup_searchOver _ _ _

variable [Platform]

def minMax (scores : List F32) : F32 × F32 :=
  let low := scores.foldl Platform.f32Min ⟨0x7f800000#32⟩
  let high := scores.foldl Platform.f32Max ⟨0xff800000#32⟩
  if low.isFinite then (low,high) else (⟨0⟩,⟨0⟩)

def normalize (s low high : F32) : F32 :=
  if (Platform.f32Sub high low).abs.lt ⟨0x34000000#32⟩ then ⟨0x3f800000#32⟩
  else Platform.f32Div (Platform.f32Sub s low) (Platform.f32Sub high low)

def neighborsIn [Approximate] (indexes : CollectionIndexes) (vs : VectorSearch) (ann : Option AnnParams)
    (metric : Metric) : VectorMode → Result (List Neighbor)
  | .annPreview => Approximate.annNearest indexes vs.field vs.query vs.k metric ((ann.bind (·.m)).getD 16)
      ((ann.bind (·.efConstruction)).getD 200) (max ((ann.bind (·.efSearch)).getD 64) vs.k)
  | .exact | .exactFallback => indexes.vectorNearest vs.field vs.query vs.k metric

def vectorCandidates [Approximate] (indexes : CollectionIndexes) (vs : VectorSearch) (ann : Option AnnParams) :
    Result (List Scored) := do
  let metric ← Metric.parse vs.metric
  let mode ← resolveVectorMode ann vs.field ((indexes.vectorLen vs.field).getD 0)
  let neighbors ← neighborsIn indexes vs ann metric mode
  return neighbors.map fun n => Scored.ranked n.id n.score

def keywordCandidates (indexes : CollectionIndexes) (get : RecordId → Option Record) (field query : String)
    (k1 b : F32) : Result (List (RecordId × F32)) :=
  match (AnalyzerPreset.keyword.indexTerms query).head? with
  | none => .ok []
  | some term => do
    let candidates ← indexes.textBm25Search field query true k1 b
    let confirmed (id : RecordId) : Bool :=
      match (get id).bind (·.fields.get field) with
      | some (.text s) => (AnalyzerPreset.keyword.indexTerms s).head? == some term
      | _ => false
    return ((candidates.filter fun p => confirmed p.1).map fun p => (p.1,(⟨0x3f800000#32⟩ : F32))).insertionSort
      fun a b => a.1 ≤ b.1

/-- The text signal under an analyzer. A per-token analyzer always has a view. -/
def analyzedCandidates (indexes : CollectionIndexes) (get : RecordId → Option Record) (preset : AnalyzerPreset)
    (field query : String) (bm25 requireAll : Bool) (k1 b : F32) : Result (List (RecordId × F32)) :=
  match preset with
  | .default | .simple =>
    if bm25 then indexes.textBm25Search field query requireAll k1 b else indexes.textSearch field query
  | .keyword => keywordCandidates indexes get field query k1 b
  | .asciiFold | .englishBasic =>
    (indexes.textSearchAnalyzed field query preset bm25 requireAll k1 b).map fun found => found.getD []

def rankedTextCandidates (indexes : CollectionIndexes) (get : RecordId → Option Record) (ts : TextSearch) :
    Result (List Scored) := do
  let preset ← AnalyzerPreset.resolve ts.analyzer
  requireTerms ts.query "text_search query has no searchable terms"
  let found ← analyzedCandidates indexes get preset ts.field ts.query (ts.rank == .bm25) ts.operator.requireAll
    (ts.k1.getD bm25DefaultK1) (ts.b.getD bm25DefaultB)
  return found.map fun p => Scored.ranked p.1 p.2

def weightedSum (hs : HybridSearch) (text vectors : List (RecordId × F32)) (t v : Option F32) : F32 :=
  let (tmin,tmax) := minMax (text.map Prod.snd)
  let (vmin,vmax) := minMax (vectors.map Prod.snd)
  let tn := (t.map (normalize · tmin tmax)).getD ⟨0⟩
  let vn := (v.map (normalize · vmin vmax)).getD ⟨0⟩
  Host.f32Add (Platform.f32Mul hs.weightText tn) (Platform.f32Mul hs.weightVector vn)

def reciprocalRank (hs : HybridSearch) (textRank vectorRank : Option Nat) : F32 :=
  let contribution (weight : F32) (rank : Option Nat) : F32 :=
    (rank.map fun r => Platform.f32Div weight (Host.f32Add rrfK (Host.f32OfNat r))).getD ⟨0⟩
  Host.f32Add (contribution hs.weightText textRank) (contribution hs.weightVector vectorRank)

def fuse (hs : HybridSearch) (text vectors : List (RecordId × F32)) : List Scored :=
  let textMap : ExtTreeMap RecordId F32 compare := TreeMap.extend ∅ text
  let vectorMap : ExtTreeMap RecordId F32 compare := TreeMap.extend ∅ vectors
  let ids := ((textMap.keys ++ vectorMap.keys).insertionSort (· ≤ ·)).dedup
  ids.map fun id =>
    let score := match hs.fusion with
      | .weightedSum => weightedSum hs text vectors textMap[id]? vectorMap[id]?
      | .reciprocalRankFusion => reciprocalRank hs (rankMap text)[id]? (rankMap vectors)[id]?
    ⟨id,some score,textMap[id]?,vectorMap[id]?⟩

/-- How many neighbours the vector side of a hybrid search asks for. -/
def hybridPool (topK : Nat) : Nat := max (min (topK * 4) (2^64 - 1)) topK

def hybridCandidates (indexes : CollectionIndexes) (get : RecordId → Option Record) (hs : HybridSearch) :
    Result (List Scored) := do
  let preset ← AnalyzerPreset.resolve hs.analyzer
  requireTerms hs.textQuery "hybrid text query has no searchable terms"
  hs.check
  let text ← analyzedCandidates indexes get preset hs.textField hs.textQuery true hs.operator.requireAll
    (hs.k1.getD bm25DefaultK1) (hs.b.getD bm25DefaultB)
  let metric ← Metric.parse (hs.metric.getD "cosine")
  let vectors ← indexes.vectorNearest hs.vectorField hs.vector (hybridPool hs.topK) metric
  return fuse hs text (vectors.map fun n => (n.id,n.score))

instance retrieval [Approximate] [Snippets] : Ranked where
  vector := vectorCandidates
  text := rankedTextCandidates
  hybrid := hybridCandidates
  bm25 indexes ts := indexes.textBm25Search ts.field ts.query ts.operator.requireAll (ts.k1.getD bm25DefaultK1)
    (ts.b.getD bm25DefaultB)
  snippets := Snippets.rowSnippets

theorem nodup_textBm25Search {requireAll : Bool}
    (done : indexes.textBm25Search field query requireAll k1 b = .ok found) : (found.map Prod.fst).Nodup := by
  unfold CollectionIndexes.textBm25Search at done
  split at done
  · cases done
  · obtain rfl := Except.ok.inj done
    exact TextIndex.nodup_bm25Over _ _ _ _ _ _

theorem nodup_textSearchAnalyzed {preset : AnalyzerPreset} {bm25 requireAll : Bool}
    {found : Option (List (RecordId × F32))}
    (done : indexes.textSearchAnalyzed field query preset bm25 requireAll k1 b = .ok found) :
    ((found.getD []).map Prod.fst).Nodup := by
  unfold CollectionIndexes.textSearchAnalyzed at done
  split at done
  · cases done
  split at done
  · obtain rfl := Except.ok.inj done
    exact List.nodup_nil
  · obtain rfl := Except.ok.inj done
    cases bm25
    · exact TextIndex.nodup_searchOver _ _ _
    · exact TextIndex.nodup_bm25Over _ _ _ _ _ _

theorem nodup_vectorNearest {query : List F32} {k : Nat} {metric : Metric} {found : List Neighbor}
    (done : indexes.vectorNearest field query k metric = .ok found) : (found.map (·.id)).Nodup := by
  unfold CollectionIndexes.vectorNearest at done
  split at done
  · cases done
  split at done
  · cases done
  · obtain rfl := Except.ok.inj done
    exact VectorIndex.nodup_nearest _ _ _ _

theorem nodup_keywordCandidates (done : keywordCandidates indexes get field query k1 b = .ok found) :
    (found.map Prod.fst).Nodup := by
  unfold keywordCandidates at done
  split at done
  · obtain rfl := Except.ok.inj done
    exact List.nodup_nil
  · obtain ⟨candidates,searched,done⟩ := bind_ok done
    obtain rfl := Except.ok.inj done
    refine ((List.perm_insertionSort _ _).map _).nodup_iff.mpr ?_
    rw [List.map_map]
    exact (nodup_textBm25Search searched).sublist (List.filter_sublist.map _)

theorem nodup_analyzedCandidates {preset : AnalyzerPreset} {bm25 requireAll : Bool}
    (done : analyzedCandidates indexes get preset field query bm25 requireAll k1 b = .ok found) :
    (found.map Prod.fst).Nodup := by
  have plain (done : (if bm25 then indexes.textBm25Search field query requireAll k1 b
      else indexes.textSearch field query) = .ok found) : (found.map Prod.fst).Nodup := by
    split at done
    · exact nodup_textBm25Search done
    · exact nodup_textSearch done
  have viewed (done : (indexes.textSearchAnalyzed field query preset bm25 requireAll k1 b).map
      (fun found => found.getD []) = .ok found) : (found.map Prod.fst).Nodup := by
    cases searched : indexes.textSearchAnalyzed field query preset bm25 requireAll k1 b with
    | error e =>
      rw [searched] at done
      cases done
    | ok view =>
      rw [searched] at done
      obtain rfl := Except.ok.inj done
      exact nodup_textSearchAnalyzed searched
  cases preset with
  | default | simple => exact plain done
  | keyword => exact nodup_keywordCandidates done
  | asciiFold | englishBasic => exact viewed done

theorem rankedTextCandidates_ranks {ts : TextSearch} {found : List Scored}
    (done : rankedTextCandidates indexes get ts = .ok found) : Ranks found := by
  obtain ⟨preset,_,done⟩ := bind_ok done
  obtain ⟨_,_,done⟩ := bind_ok done
  obtain ⟨text,searched,done⟩ := bind_ok done
  obtain rfl := Except.ok.inj done
  exact ranks_map (nodup_analyzedCandidates searched)

theorem fuse_ranks (hs : HybridSearch) (text vectors : List (RecordId × F32)) : Ranks (fuse hs text vectors) where
  distinct := by
    simp only [fuse,List.map_map,Function.comp_def,List.map_id']
    exact List.nodup_dedup _
  scored := by
    intro s inside
    obtain ⟨id,_,rfl⟩ := List.mem_map.mp inside
    rfl

theorem hybridCandidates_ranks {hs : HybridSearch} {found : List Scored}
    (done : hybridCandidates indexes get hs = .ok found) : Ranks found := by
  obtain ⟨preset,_,done⟩ := bind_ok done
  obtain ⟨_,_,done⟩ := bind_ok done
  obtain ⟨_,_,done⟩ := bind_ok done
  obtain ⟨text,_,done⟩ := bind_ok done
  obtain ⟨metric,_,done⟩ := bind_ok done
  obtain ⟨vectors,_,done⟩ := bind_ok done
  obtain rfl := Except.ok.inj done
  exact fuse_ranks hs text _

def FindQuery.ExactOn (q : FindQuery) (indexes : CollectionIndexes) : Prop :=
  ∀ vs, q.vector = some vs →
    resolveVectorMode q.vectorAnn vs.field ((indexes.vectorLen vs.field).getD 0) ≠ .ok .annPreview

theorem vectorCandidates_ranks [Approximate] {vs : VectorSearch} {ann : Option AnnParams} {found : List Scored}
    (done : vectorCandidates indexes vs ann = .ok found)
    (exact : resolveVectorMode ann vs.field ((indexes.vectorLen vs.field).getD 0) ≠ .ok .annPreview) : Ranks found := by
  obtain ⟨metric,_,done⟩ := bind_ok done
  obtain ⟨mode,resolved,done⟩ := bind_ok done
  obtain ⟨neighbors,searched,done⟩ := bind_ok done
  obtain rfl := Except.ok.inj done
  apply ranks_map
  cases mode with
  | annPreview => exact absurd resolved exact
  | exact | exactFallback => exact nodup_vectorNearest searched

end

/-- What a search reserves is bounded by the data, up to a constant, exactly where the number that the
client asks for is. -/
theorem search_memory_bounded [Host] [Platform] (idx : VectorIndex) (slack : Nat) (vs : VectorSearch)
    (hs : HybridSearch) (metric : Metric) :
    ((∃ room found, idx.nearestReserving vs.query vs.k metric = .ok (room,found) ∧ room ≤ slack + idx.entries.size) ↔
      vs.k = 0 ∨ vs.k + 1 ≤ slack + idx.entries.size ∧ (vs.k + 1) * 32 < 2^63) ∧
    ((∃ room found, idx.nearestReserving hs.vector (hybridPool hs.topK) metric = .ok (room,found) ∧
        room ≤ slack + idx.entries.size) ↔
      hs.topK = 0 ∨ hs.topK * 4 + 1 ≤ slack + idx.entries.size ∧ (hs.topK * 4 + 1) * 32 < 2^63) := by
  simp only [VectorIndex.nearestReserving_ok_iff,and_assoc,exists_and_left,exists_eq_left']
  refine ⟨VectorIndex.reserve_bounded_iff ..,(VectorIndex.reserve_bounded_iff ..).trans ?_⟩
  unfold hybridPool
  omega

theorem search_memory_unbounded : (∀ slack, (slack + 2) * 32 < 2^63 → ∃ room, VectorIndex.reserve (slack + 1) = .ok room ∧
      slack + (⟨1,∅⟩ : VectorIndex).entries.size < room) ∧
    VectorIndex.reserve (2^64 - 1) = .error .overflow ∧
    VectorIndex.reserve (hybridPool (2^62)) = .error .overflow := by
  refine ⟨fun slack fits => ⟨slack + 2,?_,by simp⟩,by decide,by decide⟩
  rw [VectorIndex.reserve_eq,if_neg (Nat.succ_ne_zero slack),if_pos fits]

end AuraDb
