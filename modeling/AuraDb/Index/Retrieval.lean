import AuraDb.Index.Collection
import AuraDb.Library.Slices
import AuraDb.Library.Sorting

/-! The query-time analyzers of `analyzer.rs`: the terms of a text under each preset and the terms one indexed
token becomes. Byte offsets are left out, they only place highlights. -/
namespace AuraDb
open Library.Ieee754

/-- More of what comes from the platform. Nothing is assumed about these functions. -/
class Platform where
  /-- `char::to_lowercase`. -/
  lowercase : Char → List Char
  f32Sub : F32 → F32 → F32
  f32Mul : F32 → F32 → F32
  f32Div : F32 → F32 → F32
  f32Min : F32 → F32 → F32
  f32Max : F32 → F32 → F32
  f32Ln : F32 → F32
  f32Sqrt : F32 → F32

inductive AnalyzerPreset where
  | default | simple | asciiFold | keyword | englishBasic
  deriving DecidableEq, Repr

namespace AnalyzerPreset

def parse : String → Result AnalyzerPreset
  | "default" => .ok .default
  | "simple" => .ok .simple
  | "ascii_fold" => .ok .asciiFold
  | "keyword" => .ok .keyword
  | "english_basic" => .ok .englishBasic
  | other => .error (.invalidRequest ("unknown analyzer " ++ other.quote ++
      "; expected one of: default, simple, ascii_fold, keyword, english_basic"))

/-- `resolve_analyzer`, with the text of the error as its callers wrap it. -/
def resolve : Option String → Result AnalyzerPreset
  | none | some "default" | some "" => .ok .default
  | some other =>
    match parse other with
    | .ok preset => .ok preset
    | .error (.invalidRequest message) => .error (.invalidRequest ("invalid request: " ++ message))
    | .error e => .error e

def isPerToken (preset : AnalyzerPreset) : Bool := preset ≠ .keyword

def foldChar (c : Char) : List Char :=
  if c ∈ ['à','á','â','ã','ä','å','ā','ă','ą'] then ['a']
  else if c ∈ ['ç','ć','ĉ','ċ','č'] then ['c']
  else if c ∈ ['è','é','ê','ë','ē','ĕ','ė','ę','ě'] then ['e']
  else if c ∈ ['ì','í','î','ï','ī','ĭ','į','ı'] then ['i']
  else if c ∈ ['ñ','ń','ņ','ň'] then ['n']
  else if c ∈ ['ò','ó','ô','õ','ö','ø','ō','ŏ','ő'] then ['o']
  else if c ∈ ['ù','ú','û','ü','ū','ŭ','ů','ű','ų'] then ['u']
  else if c ∈ ['ý','ÿ'] then ['y']
  else if c = 'ß' then ['s','s']
  else if c = 'æ' then ['a','e']
  else if c = 'œ' then ['o','e']
  else [c]

def asciiFolded (s : String) : String := String.ofList (s.toList.flatMap foldChar)

def englishStopwords : List String :=
  ["a","an","and","are","as","at","be","but","by","for","if","in","into","is","it","no","not","of","on","or",
    "such","that","the","their","then","there","these","they","this","to","was","will","with"]

def isEnglishStopword (token : String) : Bool := englishStopwords.contains token

def endsWith (token : List Char) (suffix : String) : Bool := suffix.toList.isSuffixOf token

/-- A token that passes the first test is ASCII, so its bytes are its characters. -/
def foldPlural (token : String) : String :=
  let cs := token.toList
  let stem (n : Nat) := cs.take (cs.length - n)
  let sibilant := ["s","x","z","ch","sh"].any (endsWith (stem 2))
  if cs.length < 4 || !cs.all Char.isLower then token
  else if endsWith cs "ies" && 2 ≤ (stem 3).length then String.ofList (stem 3 ++ ['y'])
  else if endsWith cs "es" && 2 ≤ (stem 2).length && sibilant then String.ofList (stem 2)
  else if endsWith cs "s" && ! List.any ["ss","us","is","ns"] (endsWith cs) then String.ofList (stem 1)
  else token

example : ["policies","boxes","backups","lens","gas"].map foldPlural = ["policy","box","backup","lens","gas"] := by decide

section
variable [Host]

def splitRuns : Option (List Char) → List Char → List (List Char)
  | run, [] => run.toList
  | run, c::cs =>
    if Host.isAlphanumeric c then splitRuns (some (run.getD [] ++ [c])) cs
    else run.toList ++ splitRuns none cs

def runTerms (text : String) : List String :=
  (splitRuns none text.toList).map fun run => Host.toLowercase (String.ofList run)

variable [Platform]

def indexTerms (preset : AnalyzerPreset) (text : String) : List String :=
  match preset with
  | .default | .simple => runTerms text
  | .asciiFold => (runTerms text).map asciiFolded
  | .englishBasic => ((runTerms text).filter fun term => !isEnglishStopword term).map foldPlural
  | .keyword =>
    let term := (text.toList.filter Host.isAlphanumeric).flatMap Platform.lowercase
    if term.isEmpty then [] else [String.ofList term]

end

def mapDefaultToken (preset : AnalyzerPreset) (token : String) : Option (List String) :=
  match preset with
  | .default | .simple => some [token]
  | .asciiFold => some [asciiFolded token]
  | .englishBasic => if isEnglishStopword token then some [] else some [foldPlural token]
  | .keyword => none

end AnalyzerPreset

/-! Ranked retrieval from the indexes: term-frequency and BM25 search over the postings
or over an analyzed view of them, and exact nearest neighbours. -/
open Library Library.Inverted Library.Sorting Std Platform

theorem transOn_scores {α : Type} (score : α → F32) (id : α → RecordId) :
    TransOn (fun a => (score a).isNaN = false) fun a b =>
      (((score b).partialCmp (score a)).getD .eq).then (compare (id a) (id b)) := by
  apply transOn_congr (transOn_then (transOn_swap (transOn_compare _ fun a => (score a).position)) (transOn_compare _ id))
  intro a b number number'
  have flipped : compare (score b).position (score a).position =
      (compare (score a).position (score b).position).swap := OrientedCmp.eq_swap
  simp [F32.partialCmp,number,number',flipped]

namespace TextIndex

variable (t : TextIndex) (postings : ExtTreeMap String (ExtTreeMap RecordId Nat compare) compare)
  (terms : List String)

/-- The postings as a per-token analyzer sees them: those of the tokens that become one
term are merged. -/
def analyzedView (t : TextIndex) (preset : AnalyzerPreset) :
    Option (ExtTreeMap String (ExtTreeMap RecordId Nat compare) compare) :=
  if !preset.isPerToken then none else
  t.postings.toList.foldlM (fun view p => do
    let outs ← preset.mapDefaultToken p.1
    return outs.foldl (fun view out => view.alter out fun entry =>
      some (p.2.toList.foldl (fun entry q => entry.alter q.1 fun tf => some (tf.getD 0 + q.2)) (entry.getD ∅))) view) ∅

variable [Host]

variable [Platform]

def bm25Contribution (k1 b avgdl idf tf dl : F32) : F32 :=
  let length := Host.f32Add (f32Sub ⟨0x3f800000#32⟩ b) (f32Div (f32Mul b dl) avgdl)
  let denom := Host.f32Add tf (f32Mul k1 length)
  f32Div (f32Mul idf (f32Mul tf (Host.f32Add k1 ⟨0x3f800000#32⟩))) denom

def bm25Idf (n df : F32) : F32 :=
  f32Ln (Host.f32Add (f32Div (Host.f32Add (f32Sub n df) ⟨0x3f000000#32⟩)
    (Host.f32Add df ⟨0x3f000000#32⟩)) ⟨0x3f800000#32⟩)

def bm25Term (t : TextIndex) (k1 b n avgdl : F32) (items : ExtTreeMap RecordId Nat compare)
    (acc : ExtTreeMap RecordId (F32 × Nat) compare) : ExtTreeMap RecordId (F32 × Nat) compare :=
  let idf := bm25Idf n (Host.f32OfNat items.size)
  items.toList.foldl (fun acc p => acc.alter p.1 fun entry =>
    let (score,terms) := entry.getD (⟨0⟩,0)
    let dl := Host.f32OfNat (t.lengths[p.1]?.getD 0)
    some (Host.f32Add score (bm25Contribution k1 b avgdl idf (Host.f32OfNat p.2) dl),terms + 1)) acc

def bm25Over (t : TextIndex) (postings : ExtTreeMap String (ExtTreeMap RecordId Nat compare) compare)
    (terms : List String) (requireAll : Bool) (k1 b : F32) : List (RecordId × F32) :=
  let n := Host.f32OfNat t.lengths.size
  let avgdl := f32Max (f32Div (Host.f32OfNat t.total) n) ⟨0x3f800000#32⟩
  if terms.isEmpty || n.eq ⟨0⟩ then [] else
  let acc := terms.foldl (fun acc term =>
    match postings[term]? with
    | none => acc
    | some items => bm25Term t k1 b n avgdl items acc) ∅
  ((acc.toList.filter (fun p => !requireAll || p.2.2 == terms.length)).map
    (fun p => (p.1,p.2.1))).insertionSort (fun a b => rankCmp a b ≠ .gt)

def bm25Search (t : TextIndex) (query : String) (requireAll : Bool) (k1 b : F32) : List (RecordId × F32) :=
  t.bm25Over t.postings (distinctTerms (tokenize query)) requireAll k1 b

theorem nodup_bm25Over (requireAll : Bool) (k1 b : F32) :
    ((t.bm25Over postings terms requireAll k1 b).map Prod.fst).Nodup := by
  simp only [bm25Over]
  split
  · exact List.nodup_nil
  · exact nodup_sorted _ _ _ _

def bm25Noted (t : TextIndex) (k1 b n avgdl : F32) (items : ExtTreeMap RecordId Nat compare) (i : RecordId) (tf : Nat)
    (entry : Option (F32 × Nat)) : F32 × Nat :=
  (Host.f32Add (entry.getD (⟨0⟩,0)).1 (bm25Contribution k1 b avgdl (bm25Idf n (Host.f32OfNat items.size))
    (Host.f32OfNat tf) (Host.f32OfNat (t.lengths[i]?.getD 0))),(entry.getD (⟨0⟩,0)).2 + 1)

theorem mem_bm25Over (t : TextIndex) (postings : ExtTreeMap String (ExtTreeMap RecordId Nat compare) compare)
    {terms : List String} (some_term : terms ≠ []) (counted : (Host.f32OfNat t.lengths.size).eq ⟨0⟩ = false) (k1 b : F32)
    (i : RecordId) : i ∈ (t.bm25Over postings terms true k1 b).map Prod.fst ↔
      ∀ w ∈ terms, (WordIndex.frequency postings w i).isSome = true := by
  have step (n avgdl : F32) : (fun acc term => match postings[term]? with
      | none => acc
      | some items => bm25Term t k1 b n avgdl items acc) = WordIndex.gather (bm25Noted t k1 b n avgdl) postings := by
    funext acc w
    unfold WordIndex.gather
    cases postings[w]? <;> rfl
  simp only [bm25Over,List.isEmpty_eq_false_iff.mpr some_term,counted,Bool.or_self,Bool.false_eq_true,if_false,mem_sorted,
    Bool.not_true,Bool.false_or,beq_iff_eq,step]
  have counts (n avgdl : F32) (items : ExtTreeMap RecordId Nat compare) (i : RecordId) (tf : Nat)
      (entry : Option (F32 × Nat)) : (bm25Noted t k1 b n avgdl items i tf entry).2 = (entry.map Prod.snd).getD 0 + 1 := by
    cases entry <;> rfl
  exact WordIndex.mem_gather_iff _ (counts _ _) some_term i

end TextIndex

inductive Metric where
  | cosine | euclidean | dotProduct
  deriving DecidableEq, Repr

namespace Metric

def parse (s : String) : Result Metric :=
  match String.ofList (s.toList.map Char.toLower) with
  | "cosine" => .ok .cosine
  | "euclidean" | "l2" => .ok .euclidean
  | "dot" | "dot_product" | "dotproduct" => .ok .dotProduct
  | other => .error (.invalidRequest ("unknown metric: " ++ other))

variable [Host] [Platform]

def sum (items : List F32) : F32 := items.foldl Host.f32Add ⟨0⟩

def dot (a b : List F32) : F32 := sum (List.zipWith f32Mul a b)

def euclideanDistance (a b : List F32) : F32 :=
  f32Sqrt (sum (List.zipWith (fun x y => f32Mul (f32Sub x y) (f32Sub x y)) a b))

def cosineSimilarity (a b : List F32) : F32 :=
  let na := f32Sqrt (dot a a)
  let nb := f32Sqrt (dot b b)
  if na.eq ⟨0⟩ || nb.eq ⟨0⟩ then ⟨0⟩ else f32Div (dot a b) (f32Mul na nb)

def similarity : Metric → List F32 → List F32 → F32
  | .cosine, a, b => cosineSimilarity a b
  | .dotProduct, a, b => dot a b
  | .euclidean, a, b => (euclideanDistance a b).neg

def distance : Metric → List F32 → List F32 → F32
  | .cosine, a, b => f32Sub ⟨0x3f800000#32⟩ (cosineSimilarity a b)
  | .dotProduct, a, b => (dot a b).neg
  | .euclidean, a, b => euclideanDistance a b

end Metric

structure Neighbor where
  id : RecordId
  score : F32
  distance : F32
  deriving DecidableEq, Repr

namespace Neighbor

def rankCmp (a b : Neighbor) : Ordering := ((b.score.partialCmp a.score).getD .eq).then (compare a.id b.id)

def better (a b : Neighbor) : Bool := rankCmp a b == .lt

def worst : List Neighbor → Option Neighbor
  | [] => none
  | first::rest => some (rest.foldl (fun kept n => if rankCmp n kept == .gt then n else kept) first)

/-- One round of the bounded selection. The heap is the list of what it holds. -/
def keep (k : Nat) (heap : List Neighbor) (cand : Neighbor) : List Neighbor :=
  if heap.length < k then cand::heap else
  match worst heap with
  | none => heap
  | some root => if better cand root then cand::heap.erase root else heap

theorem keep_subperm (k : Nat) (heap : List Neighbor) (cand : Neighbor) : (keep k heap cand).Subperm (cand::heap) := by
  unfold keep
  split
  · exact List.Subperm.refl _
  · split
    · exact (List.sublist_cons_self cand heap).subperm
    · split
      · exact (List.erase_sublist.cons_cons cand).subperm
      · exact (List.sublist_cons_self cand heap).subperm

theorem foldl_keep_subperm (k : Nat) (cands heap : List Neighbor) :
    (cands.foldl (keep k) heap).Subperm (cands ++ heap) := by
  induction cands generalizing heap with
  | nil => exact List.Subperm.refl _
  | cons cand rest ih =>
    refine (ih (keep k heap cand)).trans ?_
    have kept := (List.subperm_append_left rest).mpr (keep_subperm k heap cand)
    exact kept.trans List.perm_middle.subperm

section
variable {k : Nat} {heap seen : List Neighbor} {cand : Neighbor}

theorem keep_perm (positive : 0 < k) (room : heap.length ≤ k) (lawful : TransOn (· ∈ cand::heap) rankCmp)
    (apart : ∀ a ∈ cand::heap, ∀ b ∈ cand::heap, rankCmp a b = .eq → a = b) :
    (keep k heap cand).Perm (((cand::heap).insertionSort fun a b => rankCmp a b ≠ .gt).take k) := by
  have perm (kept : List Neighbor) := (List.perm_insertionSort (fun a b => rankCmp a b ≠ .gt) kept).symm
  unfold keep
  split
  case isTrue space =>
    rw [List.take_of_length_le (by rw [List.length_insertionSort]; exact space)]
    exact perm _
  case isFalse full =>
    obtain ⟨first,others,rfl⟩ := List.exists_cons_of_length_pos (by omega : 0 < heap.length)
    have old : ∀ a ∈ first::others, a ∈ cand::first::others := fun a held => List.mem_cons_of_mem cand held
    obtain ⟨inside,most⟩ := foldl_last lawful others old
    simp only [worst]
    generalize others.foldl (fun kept n => if rankCmp n kept == .gt then n else kept) first = root at inside most
    split
    case isTrue wins =>
      have listed := List.perm_cons_erase inside
      rw [insertionSort_eq_append lawful apart ((List.Perm.swap ..).trans (listed.symm.cons cand)) fun a held => ?_]
      · rw [List.take_left' (by rw [List.length_insertionSort,List.length_cons,List.length_erase_of_mem inside]; omega)]
        exact perm _
      · rcases List.mem_cons.mp held with rfl | held
        · simp [beq_iff_eq.mp wins]
        · exact most a (List.mem_of_mem_erase held)
    case isFalse loses =>
      rw [insertionSort_eq_append lawful apart (List.Perm.refl _) fun a held => ?_]
      · rw [List.take_left' (by rw [List.length_insertionSort]; omega)]
        exact perm _
      · have turned : rankCmp root cand = (rankCmp cand root).swap :=
          lawful.eq_swap (a := ⟨root,old root inside⟩) (b := ⟨cand,List.mem_cons_self⟩)
        have lower : rankCmp root cand ≠ .gt := by
          rw [turned]
          simpa [better] using loses
        exact ne_gt_trans lawful (old a held) (old root inside) List.mem_cons_self (most a held) lower

theorem foldl_keep_perm (positive : 0 < k) (cands : List Neighbor) (lawful : TransOn (· ∈ cands.reverse ++ seen) rankCmp)
    (apart : ∀ a ∈ cands.reverse ++ seen, ∀ b ∈ cands.reverse ++ seen, rankCmp a b = .eq → a = b)
    (kept : heap.Perm ((seen.insertionSort fun a b => rankCmp a b ≠ .gt).take k)) :
    (cands.foldl (keep k) heap).Perm (((cands.reverse ++ seen).insertionSort fun a b => rankCmp a b ≠ .gt).take k) := by
  induction cands generalizing seen heap with
  | nil => exact kept
  | cons cand cands ih =>
    rw [List.reverse_cons,List.append_assoc,List.singleton_append] at lawful apart ⊢
    refine ih lawful apart ?_
    have sorted : (seen.insertionSort fun a b => rankCmp a b ≠ .gt).Pairwise fun a b => rankCmp a b ≠ .gt :=
      pairwise_insertionSort (transOn_mono lawful fun a held => by simp_all)
    have inside : heap ⊆ seen := fun a held =>
      (List.perm_insertionSort _ seen).subset (List.take_subset _ _ (kept.subset held))
    have old : ∀ a ∈ cand::heap, a ∈ cands.reverse ++ cand::seen := fun a held =>
      List.mem_append_right _ (List.cons_subset_cons cand inside held)
    have lawful' : TransOn (· ∈ cand::heap) rankCmp := transOn_mono lawful old
    have apart' : ∀ a ∈ cand::heap, ∀ b ∈ cand::heap, rankCmp a b = .eq → a = b :=
      fun a held b held' => apart a (old a held) b (old b held')
    refine (keep_perm positive (by rw [kept.length_eq]; exact List.length_take_le _ _) lawful' apart').trans ?_
    rw [← insertionSort_eq_of_perm lawful' apart' (kept.symm.cons cand),List.insertionSort_cons,
      (sorted.sublist (List.take_sublist ..)).insertionSort_eq,take_orderedInsert,← List.insertionSort_cons]

end

end Neighbor

/-- Arithmetic that keeps the right operand: a dot product is the last component. -/
@[reducible] def lastHost : Host := { plainHost with f32Add := fun _ b => b }

@[reducible] def lastPlatform : Platform where
  lowercase c := [c.toLower]
  f32Sub _ b := b
  f32Mul _ b := b
  f32Div _ b := b
  f32Min _ b := b
  f32Max _ b := b
  f32Ln a := a
  f32Sqrt a := a

def docs : List (RecordId × List F32) := [(1,[⟨0x3f800000⟩]),(2,[⟨0x40000000⟩]),(3,[⟨0x3f800000⟩])]

namespace VectorIndex

/-- The heap that `nearest` asks for at first. A neighbour takes 32 bytes, and no allocation is longer than the
largest signed word. -/
def reserve (k : Nat) : Slices.Checked Nat :=
  if k = 0 then .ok 0 else do
    let capacity ← Slices.add k 1
    if capacity * 32 < 2^63 then .ok capacity else .error .overflow

theorem reserve_eq (k : Nat) : reserve k =
    if k = 0 then .ok 0 else if (k + 1) * 32 < 2^63 then .ok (k + 1) else .error .overflow := by
  unfold reserve Slices.add
  split
  · rfl
  split
  · rfl
  · rw [if_neg (by omega : ¬(k + 1) * 32 < 2^63)]
    rfl

theorem reserve_bounded_iff (k bound : Nat) : (∃ room, reserve k = .ok room ∧ room ≤ bound) ↔
    k = 0 ∨ k + 1 ≤ bound ∧ (k + 1) * 32 < 2^63 := by
  rw [reserve_eq]
  by_cases none : k = 0
  · simp [none]
  · by_cases fits : (k + 1) * 32 < 2^63
    · simp only [none,fits,if_false,if_true,Except.ok.injEq,exists_eq_left',false_or,and_true]
    · simp only [none,fits,if_false,reduceCtorEq,false_and,exists_false,and_false,or_false]

section
variable [Host] [Platform]

def scored (query : List F32) (metric : Metric) (entries : List (RecordId × List F32)) : List Neighbor :=
  (entries.filter (fun p => p.2.length == query.length)).map fun p =>
    ⟨p.1,metric.similarity query p.2,metric.distance query p.2⟩

def nearestIn (entries : List (RecordId × List F32)) (query : List F32) (k : Nat) (metric : Metric) : List Neighbor :=
  if k = 0 then [] else
  ((scored query metric entries).foldl (Neighbor.keep k) []).insertionSort fun a b => Neighbor.rankCmp a b ≠ .gt

def nearest (idx : VectorIndex) (query : List F32) (k : Nat) (metric : Metric) : List Neighbor :=
  nearestIn idx.entries.toList query k metric

/-- `nearest` with the size of its heap. -/
def nearestReserving (idx : VectorIndex) (query : List F32) (k : Nat) (metric : Metric) :
    Slices.Checked (Nat × List Neighbor) := do
  let room ← reserve k
  return (room,idx.nearest query k metric)

theorem nearestReserving_ok_iff (idx : VectorIndex) (query : List F32) (k : Nat) (metric : Metric) (room : Nat)
    (found : List Neighbor) : idx.nearestReserving query k metric = .ok (room,found) ↔
      reserve k = .ok room ∧ idx.nearest query k metric = found := by
  unfold nearestReserving
  cases reserve k with
  | error panic => exact ⟨nofun,nofun⟩
  | ok room' => exact (Except.ok.injEq ..).to_iff.trans ((Prod.mk.injEq ..).to_iff.trans (by rw [Except.ok.injEq]))

theorem nodup_scored (idx : VectorIndex) (query : List F32) (metric : Metric) :
    ((scored query metric idx.entries.toList).map (·.id)).Nodup := by
  rw [scored,List.map_map]
  exact (TreeMap.keys_nodup idx.entries).sublist (List.filter_sublist.map _)

theorem nodup_nearest (idx : VectorIndex) (query : List F32) (k : Nat) (metric : Metric) :
    ((idx.nearest query k metric).map (·.id)).Nodup := by
  unfold nearest nearestIn
  split
  · exact List.nodup_nil
  · have ids := nodup_scored idx query metric
    obtain ⟨kept,same,inside⟩ := Neighbor.foldl_keep_subperm k (scored query metric idx.entries.toList) []
    rw [List.append_nil] at inside
    have distinct := (same.map (·.id)).nodup_iff.mp (ids.sublist (inside.map _))
    exact ((List.perm_insertionSort _ _).map _).nodup_iff.mpr distinct

/-- Where no similarity is NaN, the bounded selection returns the first `k` of all scored
entries in order, whichever order it visits them in. -/
theorem exact_top_k (idx : VectorIndex) (query : List F32) (k : Nat) (metric : Metric)
    (numeric : ∀ (id : RecordId) v, idx.entries[id]? = some v → v.length = query.length →
      (metric.similarity query v).isNaN = false)
    (visited : List (RecordId × List F32)) (same : visited.Perm idx.entries.toList) :
    nearestIn visited query k metric = ((scored query metric idx.entries.toList).insertionSort
      fun a b => Neighbor.rankCmp a b ≠ .gt).take k := by
  have perm : (scored query metric visited).Perm (scored query metric idx.entries.toList) := (same.filter _).map _
  have ids := nodup_scored idx query metric
  have numbers : ∀ n ∈ scored query metric idx.entries.toList, n.score.isNaN = false := by
    intro n inside
    obtain ⟨⟨id,v⟩,listed,rfl⟩ := List.mem_map.mp inside
    obtain ⟨listed,long⟩ := List.mem_filter.mp listed
    exact numeric id v (ExtTreeMap.mem_toList_iff_getElem?_eq_some.mp listed) (by simpa using long)
  generalize scored query metric idx.entries.toList = all at perm ids numbers
  have lawful : TransOn (· ∈ all) Neighbor.rankCmp := transOn_mono (transOn_scores Neighbor.score Neighbor.id) numbers
  have apart : ∀ a ∈ all, ∀ b ∈ all, Neighbor.rankCmp a b = .eq → a = b := by
    intro a held b held' tie
    exact List.inj_on_of_nodup_map ids held held' (Nat.compare_eq_eq.mp (Ordering.then_eq_eq.mp tie).2)
  unfold nearestIn
  split
  · simp [*]
  · rename_i positive
    have whole : ((scored query metric visited).reverse ++ []).Perm all := by
      rw [List.append_nil]
      exact (List.reverse_perm _).trans perm
    have inside : ∀ a ∈ (all.insertionSort fun a b => Neighbor.rankCmp a b ≠ .gt).take k, a ∈ all := fun a held =>
      (List.perm_insertionSort _ all).subset (List.take_subset _ _ held)
    have kept := @Neighbor.foldl_keep_perm k [] [] (Nat.pos_of_ne_zero positive) (scored query metric visited)
      (transOn_mono lawful fun a held => whole.subset held)
      (fun a held b held' => apart a (whole.subset held) b (whole.subset held')) (by simp)
    rw [insertionSort_eq_of_perm lawful apart whole] at kept
    rw [insertionSort_eq_of_perm (transOn_mono lawful inside)
      (fun a held b held' => apart a (inside a held) b (inside b held')) kept]
    exact ((pairwise_insertionSort lawful).sublist (List.take_sublist ..)).insertionSort_eq

end

theorem exact_top_k_docs : (@nearestIn lastHost lastPlatform docs.reverse [⟨0x3f800000⟩] 2 .dotProduct).map (·.id) =
    [2,1] := by
  have numeric : ∀ p ∈ (⟨1,TreeMap.extend ∅ docs⟩ : VectorIndex).entries.toList,
      (@Metric.similarity lastHost lastPlatform .dotProduct [⟨0x3f800000⟩] p.2).isNaN = false := by decide +kernel
  rw [@exact_top_k lastHost lastPlatform ⟨1,TreeMap.extend ∅ docs⟩ _ 2 .dotProduct
    (fun id v held _ => numeric (id,v) (ExtTreeMap.mem_toList_iff_getElem?_eq_some.mpr held)) _ (by decide +kernel)]
  decide +kernel

end VectorIndex

namespace CollectionIndexes

def vectorLen (idx : CollectionIndexes) (field : String) : Option Nat := idx.vectorMaps[field]?.map (·.entries.size)

variable [Host] [Platform]

def textBm25Search (idx : CollectionIndexes) (field query : String) (requireAll : Bool) (k1 b : F32) :
    Result (List (RecordId × F32)) :=
  match idx.textMaps[field]? with
  | none => .error (.invalidRequest ("no full-text index on field " ++ field))
  | some t => .ok (TextIndex.bm25Search t query requireAll k1 b)

def textSearchAnalyzed (idx : CollectionIndexes) (field query : String) (preset : AnalyzerPreset)
    (bm25 requireAll : Bool) (k1 b : F32) : Result (Option (List (RecordId × F32))) :=
  match idx.textMaps[field]? with
  | none => .error (.invalidRequest ("no full-text index on field " ++ field))
  | some t =>
    match TextIndex.analyzedView t preset with
    | none => .ok none
    | some view =>
      let terms := TextIndex.distinctTerms (preset.indexTerms query)
      .ok (some (if bm25 then TextIndex.bm25Over t view terms requireAll k1 b else TextIndex.searchOver t view terms))

def vectorNearest (idx : CollectionIndexes) (field : String) (query : List F32) (k : Nat) (metric : Metric) :
    Result (List Neighbor) :=
  match idx.vectorMaps[field]? with
  | none => .error (.invalidRequest ("no vector index on field " ++ field))
  | some index =>
    if query.length ≠ index.dim then .error (.invalidRequest ("query vector dimension " ++ toString query.length ++
      " does not match field dimension " ++ toString index.dim))
    else .ok (index.nearest query k metric)

end CollectionIndexes

end AuraDb
