import AuraDb.Index.Snapshot
import AuraDb.Query.Reads
import AuraDb.Query.Retrieval

/-! Paging through a ranked result by keyset cursors. Each page evaluates the query again and starts behind the
score and id its token carries. -/
namespace AuraDb
open Library Library.Ieee754 Library.Framing Library.Hex Library.Sorting Std
variable {src : Source} {q : FindQuery} {d : Deadline} {ordered : List Scored}

structure CursorState where
  rankOffset : Nat
  lastId : RecordId
  lastScore : F32
  fingerprint : Nat
  deriving DecidableEq

structure RankedPage where
  rows : List Scored
  nextCursor : Option String
  startRank : Nat
  deriving DecidableEq

structure QueryKey where
  collection : String
  filter : Option Filter
  vector : Option VectorSearch
  textSearch : Option TextSearch
  hybrid : Option HybridSearch

class KeyText where
  keyText : QueryKey → Bytes

def FindQuery.key (q : FindQuery) : QueryKey := ⟨q.collection,q.filter,q.vector,q.textSearch,q.hybrid⟩

def queryFingerprint [KeyText] (q : FindQuery) : Nat :=
  ((KeyText.keyText q.key).map UInt8.toNat).foldl fnvByte 0xcbf29ce484222325

def cursorVersion : UInt8 := 1

def cursorBytes (c : CursorState) : Bytes :=
  cursorVersion::(beBytes 8 c.rankOffset ++ (beBytes 16 c.lastId ++ (beBytes 4 c.lastScore.bits.toNat ++
    beBytes 8 c.fingerprint)))

def encodeToken (c : CursorState) : String := String.ofList (hexChars (cursorBytes c))

/-- A token of the right length with a digit in every place; every other one is refused alike. -/
def decodeToken (token : String) : Result CursorState :=
  match hexBytes token.toList with
  | none => .error (.invalidRequest "invalid cursor token")
  | some buf =>
    if buf.length ≠ 37 then .error (.invalidRequest "invalid cursor token")
    else if buf.headD 0 ≠ cursorVersion then
      .error (.invalidRequest ("unsupported cursor token version " ++ toString (buf.headD 0)))
    else .ok ⟨beNat ((buf.drop 1).take 8),beNat ((buf.drop 9).take 16),
      ⟨BitVec.ofNat 32 (beNat ((buf.drop 25).take 4))⟩,beNat ((buf.drop 29).take 8)⟩

def negInfinity : F32 := ⟨0xff800000#32⟩

def afterKey (lastScore : F32) (lastId : RecordId) (s : Scored) : Bool :=
  match ((s.score.getD negInfinity).partialCmp lastScore).getD .eq with
  | .lt => true
  | .gt => false
  | .eq => decide (lastId < s.id)

def resume (fingerprint : Nat) (ordered : List Scored) : Option String → Result (Nat × Nat)
  | none => .ok (0,0)
  | some token =>
    match decodeToken token with
    | .error e => .error e
    | .ok st =>
      if st.fingerprint ≠ fingerprint then .error (.invalidRequest "cursor token does not belong to this query")
      else .ok (ordered.findIdx (afterKey st.lastScore st.lastId),st.rankOffset)

def cut (fingerprint : Nat) (ordered : List Scored) (pageSize start baseRank : Nat) : RankedPage :=
  let stop := min (start + pageSize) ordered.length
  let rows := (ordered.drop start).take (stop - start)
  { rows
    nextCursor := if stop < ordered.length then ordered[stop - 1]?.map fun last =>
      encodeToken ⟨baseRank + rows.length,last.id,last.score.getD negInfinity,fingerprint⟩ else none
    startRank := baseRank }

def FindQuery.unpaged (q : FindQuery) : FindQuery := { q with offset := none, limit := none }

def paginateRanked [Host] [Ranked] [KeyText] (src : Source) (q : FindQuery) (pageSize : Nat) (cursor : Option String)
    (d : Deadline) : Result RankedPage :=
  if pageSize = 0 then .error (.invalidRequest "page_size must be >= 1")
  else if !q.ranked then
    .error (.invalidRequest "ranked cursor requires a vector, text_search, or hybrid clause")
  else do
    let ordered ← executeFind src q.unpaged d
    let (start,baseRank) ← resume (queryFingerprint q) ordered cursor
    return cut (queryFingerprint q) ordered pageSize start baseRank

theorem queryFingerprint_lt [KeyText] (q : FindQuery) : queryFingerprint q < 2^64 := by
  have step (bytes : List Nat) (h : Nat) (bound : h < 2^64) : bytes.foldl fnvByte h < 2^64 := by
    induction bytes generalizing h with
    | nil => exact bound
    | cons b rest ih => exact ih _ (Nat.mod_lt _ (by decide))
  exact step _ _ (by decide)

structure CursorState.Fits (c : CursorState) : Prop where
  rankOffset : c.rankOffset < 2^64
  lastId : c.lastId < 2^128
  fingerprint : c.fingerprint < 2^64

theorem decodeToken_encodeToken (c : CursorState) : decodeToken (encodeToken c) =
    .ok ⟨beNat (beBytes 8 c.rankOffset),beNat (beBytes 16 c.lastId),c.lastScore,beNat (beBytes 8 c.fingerprint)⟩ := by
  have score := beNat_beBytes 4 c.lastScore.bits.toNat (by simpa using c.lastScore.bits.isLt)
  have first : ((cursorBytes c).drop 1).take 8 = beBytes 8 c.rankOffset := by simp [cursorBytes]
  have second : ((cursorBytes c).drop 9).take 16 = beBytes 16 c.lastId := by simp [cursorBytes]
  have third : ((cursorBytes c).drop 25).take 4 = beBytes 4 c.lastScore.bits.toNat := by
    simp [cursorBytes,List.drop_append,List.drop_of_length_le]
  have fourth : ((cursorBytes c).drop 29).take 8 = beBytes 8 c.fingerprint := by
    simp [cursorBytes,List.drop_append,List.drop_of_length_le,List.take_of_length_le]
  have length : (cursorBytes c).length = 37 := by simp [cursorBytes]
  have version : (cursorBytes c).headD 0 = cursorVersion := rfl
  unfold decodeToken encodeToken
  rw [String.toList_ofList,hexBytes_hexChars]
  simp only [length,version,first,second,third,fourth,score,ne_eq,not_true_eq_false,if_false,BitVec.ofNat_toNat,
    BitVec.setWidth_eq]

theorem CursorState.Fits.decoded {c : CursorState} (fits : c.Fits) : decodeToken (encodeToken c) = .ok c := by
  rw [decodeToken_encodeToken,beNat_beBytes 8 c.rankOffset (by simpa using fits.rankOffset),
    beNat_beBytes 16 c.lastId (by simpa using fits.lastId),beNat_beBytes 8 c.fingerprint (by simpa using fits.fingerprint)]

def Scored.NoNaN (s : Scored) : Prop :=
  ∀ x, s.score = some x ∨ s.textScore = some x ∨ s.vectorScore = some x → x.isNaN = false

def Scored.Comparable (s : Scored) : Prop := ∃ x, s.score = some x ∧ x.isNaN = false

theorem transOn_byScore : TransOn Scored.Comparable byScore := by
  have numbers (s : Scored) : s.Comparable → (s.score.getD negInfinity).isNaN = false := by
    rintro ⟨x,scored,number⟩
    rwa [scored]
  apply transOn_congr (transOn_mono (transOn_scores (fun s => s.score.getD negInfinity) Scored.id) numbers)
  rintro a b ⟨x,scored,number⟩ ⟨y,scored',number'⟩
  simp [byScore,scoreCmp,scored,scored']

theorem afterKey_eq {last s : Scored} {x y : F32} (scored : last.score = some x) (scored' : s.score = some y) :
    afterKey (last.score.getD negInfinity) last.id s = (byScore last s == .lt) := by
  simp only [afterKey,byScore,scoreCmp,scored,scored',Option.getD_some]
  cases (y.partialCmp x).getD .eq with
  | lt | gt => rfl
  | eq => rw [Ordering.then,Bool.eq_iff_iff,decide_eq_true_iff,beq_iff_eq,Nat.compare_eq_lt]

section
variable [Host] [Ranked]

def rankedCandidates (src : Source) (q : FindQuery) : Result (List Scored) := do
  let schema ← src.requireSchema q.collection
  let indexes ← src.requireIndexes q.collection
  selectCandidates src indexes q (planAccess src q schema indexes)

omit [Ranked] in
theorem planAccess_ranked {schema : CollectionSchema} {indexes : CollectionIndexes}
    (ranked : q.ranked = true) : (planAccess src q schema indexes).scoreOrdered = true := by
  unfold planAccess planFind
  cases hybrid : q.hybrid with
  | some _ => rfl
  | none =>
    cases text : q.textSearch with
    | some _ => rfl
    | none =>
      cases vector : q.vector with
      | some _ => rfl
      | none => simp [FindQuery.ranked,hybrid,text,vector] at ranked

theorem executeFind_ranked (ranked : q.ranked = true) (done : executeFind src q d = .ok ordered) :
    ∃ found, rankedCandidates src q = .ok found ∧
      ordered = page q (sortBy byScore (found.filter fun cand => keeps src q.collection q.filter cand.id)) := by
  obtain ⟨_,_,done⟩ := bind_ok done
  obtain ⟨schema,declared,done⟩ := bind_ok done
  obtain ⟨indexes,held,done⟩ := bind_ok done
  cases selected : selectCandidates src indexes q (planAccess src q schema indexes) with
  | error e =>
    simp only [findVia,selected] at done
    obtain ⟨_,_,done⟩ := bind_ok done
    cases done
  | ok found =>
    refine ⟨found,?_,?_⟩
    · simp only [rankedCandidates,declared,held]
      exact selected
    · rw [findVia_ok selected done,orderMatched,if_pos (planAccess_ranked ranked)]

end

section
variable [Host] [Platform] [Approximate] [Snippets]

theorem rankedCandidates_ranks {found : List Scored} (ranked : q.ranked = true)
    (exact : ∀ indexes, src.indexes q.collection = some indexes → q.ExactOn indexes)
    (selected : rankedCandidates src q = .ok found) : Ranks found := by
  obtain ⟨schema,_,selected⟩ := bind_ok selected
  obtain ⟨indexes,held,selected⟩ := bind_ok selected
  have known : src.indexes q.collection = some indexes := by
    unfold Source.requireIndexes at held
    split at held
    · obtain rfl := Except.ok.inj held
      assumption
    · cases held
  unfold planAccess planFind selectCandidates at selected
  cases hybrid : q.hybrid with
  | some hs =>
    simp only [hybrid] at selected
    exact hybridCandidates_ranks selected
  | none =>
    cases text : q.textSearch with
    | some ts =>
      simp only [hybrid,text] at selected
      exact rankedTextCandidates_ranks selected
    | none =>
      cases vector : q.vector with
      | some vs =>
        simp only [hybrid,text,vector] at selected
        exact vectorCandidates_ranks selected (exact indexes known vs vector)
      | none => simp [FindQuery.ranked,hybrid,text,vector] at ranked

end

structure RowsFit (found : List Scored) : Prop where
  count : found.length < 2^64
  ids : ∀ s ∈ found, s.id < 2^128

/-- A full ranked result: strictly ordered, so that no two rows have one key. -/
structure RankedResult (ordered : List Scored) : Prop where
  comparable : ∀ s ∈ ordered, s.Comparable
  sorted : ordered.Pairwise fun a b => byScore a b = .lt
  distinct : (ordered.map (·.id)).Nodup
  fits : RowsFit ordered

theorem page_sublist (q : FindQuery) (found : List Scored) : (page q found).Sublist found := by
  unfold page
  split
  · exact (List.take_sublist _ _).trans (List.drop_sublist _ _)
  · exact List.drop_sublist _ _

variable {found : List Scored} {fingerprint pageSize start : Nat} {cursor : Option String} {α : Type}

theorem byScore_apart (distinct : (found.map (·.id)).Nodup) :
    ∀ a ∈ found, ∀ b ∈ found, byScore a b = .eq → a = b := by
  intro a held b held' same
  rw [byScore,Ordering.then_eq_eq,Nat.compare_eq_eq] at same
  exact List.inj_on_of_nodup_map distinct held held' same.2

theorem Ranks.result (ranks : Ranks found) (numeric : ∀ s ∈ found, s.NoNaN) (fits : RowsFit found) (q : FindQuery)
    (accept : Scored → Bool) : RankedResult (page q (sortBy byScore (found.filter accept))) := by
  have comparable (s : Scored) (held : s ∈ found) : s.Comparable := by
    obtain ⟨x,scored⟩ := Option.isSome_iff_exists.mp (ranks.scored s held)
    exact ⟨x,scored,numeric s held x (.inl scored)⟩
  have perm := List.perm_insertionSort (fun a b => byScore a b ≠ .gt) (found.filter accept)
  have kept : (found.filter accept).Sublist found := List.filter_sublist
  have distinct := ranks.distinct.sublist (kept.map _)
  have lawful : TransOn (· ∈ found.filter accept) byScore :=
    transOn_mono transOn_byScore fun s held => comparable s (kept.subset held)
  have sorted := pairwise_lt_insertionSort lawful (byScore_apart distinct) (List.Nodup.of_map _ distinct)
  have paged := page_sublist q (sortBy byScore (found.filter accept))
  have inside (s : Scored) (held : s ∈ page q (sortBy byScore (found.filter accept))) : s ∈ found :=
    kept.subset (perm.mem_iff.mp (paged.subset held))
  refine ⟨fun s held => comparable s (inside s held),sorted.sublist paged,?_,?_,?_⟩
  · exact ((perm.map _).nodup_iff.mpr distinct).sublist (paged.map _)
  · have fewer := paged.length_le
    rw [sortBy,perm.length_eq] at fewer
    exact Nat.lt_of_le_of_lt (fewer.trans kept.length_le) fits.count
  · exact fun s held => fits.ids s (inside s held)

theorem length_cut (fingerprint : Nat) (ordered : List Scored) (pageSize start baseRank : Nat) :
    (cut fingerprint ordered pageSize start baseRank).rows.length = min (start + pageSize) ordered.length - start := by
  simp only [cut,List.length_take,List.length_drop]
  omega

theorem rows_cut (fingerprint : Nat) (ordered : List Scored) (pageSize start baseRank : Nat) :
    (cut fingerprint ordered pageSize start baseRank).rows ++ ordered.drop (min (start + pageSize) ordered.length) =
      ordered.drop start := by
  have later : start ≤ min (start + pageSize) ordered.length ∨ ordered.length < start := by omega
  rcases later with later | past
  · have tail : ordered.drop (min (start + pageSize) ordered.length) =
        (ordered.drop start).drop (min (start + pageSize) ordered.length - start) := by
      rw [List.drop_drop]
      congr 1
      omega
    rw [tail]
    exact List.take_append_drop _ _
  · simp only [cut,List.drop_of_length_le past.le,List.take_nil,List.nil_append]
    exact List.drop_of_length_le (by omega)

theorem RankedResult.resume_cut (result : RankedResult ordered) (print : fingerprint < 2^64) (positive : 1 ≤ pageSize)
    (more : start + pageSize < ordered.length) :
    ∃ token, (cut fingerprint ordered pageSize start start).nextCursor = some token ∧
      resume fingerprint ordered (some token) = .ok (start + pageSize,start + pageSize) := by
  have stop : min (start + pageSize) ordered.length = start + pageSize := by omega
  have bound : start + pageSize - 1 < ordered.length := by omega
  have found : ordered[start + pageSize - 1]? = some ordered[start + pageSize - 1] := List.getElem?_eq_getElem bound
  have held := List.getElem_mem bound
  generalize ordered[start + pageSize - 1] = last at found held
  have rows := length_cut fingerprint ordered pageSize start start
  have fits : CursorState.Fits ⟨start + pageSize,last.id,last.score.getD negInfinity,fingerprint⟩ :=
    ⟨Nat.lt_trans more result.fits.count,result.fits.ids last held,print⟩
  have rank : start + (cut fingerprint ordered pageSize start start).rows.length = start + pageSize := by omega
  refine ⟨encodeToken ⟨start + pageSize,last.id,last.score.getD negInfinity,fingerprint⟩,?_,?_⟩
  · simp only [cut] at rank ⊢
    rw [rank]
    simp only [stop,more,if_true,found,Option.map_some]
  · have lawful : TransOn (· ∈ ordered) byScore := transOn_mono transOn_byScore result.comparable
    obtain ⟨x,scored,_⟩ := result.comparable last held
    have seeks (s : Scored) (inside : s ∈ ordered) :
        afterKey (last.score.getD negInfinity) last.id s = (byScore last s == .lt) := by
      obtain ⟨y,scored',_⟩ := result.comparable s inside
      exact afterKey_eq scored scored'
    simp only [resume,fits.decoded]
    rw [if_neg (by simp),findIdx_after lawful result.sorted found seeks,Nat.sub_add_cancel (by omega)]

theorem nextCursor_none {baseRank : Nat} (last : ordered.length ≤ start + pageSize) :
    (cut fingerprint ordered pageSize start baseRank).nextCursor = none := by
  simp only [cut,Nat.min_eq_right last,Nat.lt_irrefl,if_false]

section
variable [Host] [Ranked] [KeyText]

/-- Following the cursors from one on to the last page, each call with its own deadline. -/
inductive Follows (src : Source) (q : FindQuery) (pageSize : Nat) (d : Nat → Deadline) :
    Nat → Option String → List RankedPage → Prop where
  | last {n : Nat} {cursor : Option String} {page : RankedPage}
      (read : paginateRanked src q pageSize cursor (d n) = .ok page) (ended : page.nextCursor = none) :
      Follows src q pageSize d n cursor [page]
  | next {n : Nat} {cursor : Option String} {page : RankedPage} {token : String} {pages : List RankedPage}
      (read : paginateRanked src q pageSize cursor (d n) = .ok page) (more : page.nextCursor = some token)
      (rest : Follows src q pageSize d (n + 1) (some token) pages) :
      Follows src q pageSize d n cursor (page::pages)

def rowsBefore (pages : List RankedPage) (i : Nat) : List Scored := (pages.take i).flatMap (·.rows)

theorem RankedResult.follows {d : Nat → Deadline}
    (result : RankedResult ordered) (ranked : q.ranked = true) (positive : 1 ≤ pageSize)
    (ran : ∀ n, executeFind src q.unpaged (d n) = .ok ordered) (left n start : Nat) (cursor : Option String)
    (remaining : ordered.length - start = left) (resumed : resume (queryFingerprint q) ordered cursor = .ok (start,start)) :
    ∃ pages, Follows src q pageSize d n cursor pages ∧ pages.flatMap (·.rows) = ordered.drop start ∧
      ∀ i page, pages[i]? = some page → page.startRank = start + (rowsBefore pages i).length := by
  induction left using Nat.strong_induction_on generalizing n start cursor with
  | _ left ih =>
  have read : paginateRanked src q pageSize cursor (d n) =
      .ok (cut (queryFingerprint q) ordered pageSize start start) := by
    rw [paginateRanked,if_neg (by omega),ranked]
    simp only [Bool.not_true,Bool.false_eq_true,if_false,ran n,bind,Except.bind,resumed]
    rfl
  have parts := rows_cut (queryFingerprint q) ordered pageSize start start
  by_cases more : start + pageSize < ordered.length
  · obtain ⟨token,named,resumed'⟩ := result.resume_cut (queryFingerprint_lt q) positive more
    obtain ⟨pages,rest,rows,ranks⟩ := ih (ordered.length - (start + pageSize)) (by omega) (n + 1) (start + pageSize)
      (some token) rfl resumed'
    have length := length_cut (queryFingerprint q) ordered pageSize start start
    rw [Nat.min_eq_left more.le] at parts length
    refine ⟨_,.next read named rest,?_,?_⟩
    · rw [List.flatMap_cons,rows,parts]
    · intro i page found
      cases i with
      | zero =>
        obtain rfl := Option.some.inj found
        rfl
      | succ i =>
        have rank := ranks i page found
        simp only [rowsBefore,List.take_succ_cons,List.flatMap_cons,List.length_append] at rank ⊢
        omega
  · have all : ordered.length ≤ start + pageSize := Nat.le_of_not_lt more
    refine ⟨_,.last read (nextCursor_none all),?_,?_⟩
    · rw [Nat.min_eq_right all,List.drop_length,List.append_nil] at parts
      simpa using parts
    · intro i page found
      cases i with
      | zero =>
        obtain rfl := Option.some.inj found
        rfl
      | succ i => cases found

theorem Follows.unique {n : Nat} {d : Nat → Deadline}
    {pages pages' : List RankedPage} (follows : Follows src q pageSize d n cursor pages)
    (follows' : Follows src q pageSize d n cursor pages') : pages' = pages := by
  induction follows generalizing pages' with
  | last read ended =>
    cases follows' with
    | last read' _ => rw [Except.ok.inj (read.symm.trans read')]
    | next read' more _ =>
      obtain rfl := Except.ok.inj (read.symm.trans read')
      rw [ended] at more
      cases more
  | next read more _ ih =>
    cases follows' with
    | last read' ended =>
      obtain rfl := Except.ok.inj (read.symm.trans read')
      rw [ended] at more
      cases more
    | next read' more' rest =>
      obtain rfl := Except.ok.inj (read.symm.trans read')
      obtain rfl := Option.some.inj (more.symm.trans more')
      rw [ih rest]

end

/-- Following the cursors of a ranked query over a fixed source ends, and the pages are the full ranked result
in order, with continuous ranks. -/
theorem ranked_pages_complete [Host] [Platform] [Approximate] [Snippets] [KeyText] (src : Source) (q : FindQuery)
    (pageSize : Nat) (d : Nat → Deadline) (ranked : q.ranked = true) (positive : 1 ≤ pageSize)
    (exact : ∀ indexes, src.indexes q.collection = some indexes → q.ExactOn indexes)
    (numeric : ∀ found, rankedCandidates src q.unpaged = .ok found → ∀ s ∈ found, s.NoNaN)
    (fits : ∀ found, rankedCandidates src q.unpaged = .ok found → RowsFit found)
    (runs : ∀ n, ∃ ordered, executeFind src q.unpaged (d n) = .ok ordered) :
    ∃ ordered pages, (∀ n, executeFind src q.unpaged (d n) = .ok ordered) ∧
      Follows src q pageSize d 0 none pages ∧ (∀ pages', Follows src q pageSize d 0 none pages' → pages' = pages) ∧
      pages.flatMap (·.rows) = ordered ∧ (ordered.map (·.id)).Nodup ∧
      ∀ i page, pages[i]? = some page → page.startRank = (rowsBefore pages i).length := by
  obtain ⟨ordered,first⟩ := runs 0
  obtain ⟨found,selected,shape⟩ := executeFind_ranked (q := q.unpaged) ranked first
  have ran (n : Nat) : executeFind src q.unpaged (d n) = .ok ordered := by
    obtain ⟨other,done⟩ := runs n
    obtain ⟨found',selected',shape'⟩ := executeFind_ranked (q := q.unpaged) ranked done
    obtain rfl := Except.ok.inj (selected.symm.trans selected')
    rw [done,shape',shape]
  have ranks : Ranks found := rankedCandidates_ranks (q := q.unpaged) ranked exact selected
  have result := ranks.result (numeric found selected) (fits found selected) q.unpaged
    fun cand => keeps src q.unpaged.collection q.unpaged.filter cand.id
  rw [← shape] at result
  obtain ⟨pages,follows,rows,starts⟩ := result.follows ranked positive ran ordered.length 0 0 none rfl rfl
  refine ⟨ordered,pages,ran,follows,fun _ => follows.unique,rows,result.distinct,?_⟩
  intro i page found
  rw [starts i page found,Nat.zero_add]

@[reducible] def noGraph : Approximate := ⟨fun _ _ _ _ _ _ _ _ => .ok []⟩

@[reducible] def noSnippets : Snippets := ⟨fun _ _ => .ok []⟩

@[reducible] def namedKey : KeyText := ⟨fun key => key.collection.toUTF8.toList⟩

def docSource : Source where
  schema _ := some ⟨"docs",[],[],[]⟩
  indexes _ := some { CollectionIndexes.fromSchema ⟨"docs",[],[],[]⟩ with
    vectorMaps := (∅ : ExtTreeMap String VectorIndex compare).insert "v" ⟨1,TreeMap.extend ∅ docs⟩ }
  scan _ := docs.map fun p => ⟨p.1,"docs",[],1,0⟩
  get _ id := if docs.any (·.1 == id) then some ⟨id,"docs",[],1,0⟩ else none
  stats _ := none

def docQuery : FindQuery := { FindQuery.new "docs" with vector := some ⟨"v",[⟨0x3f800000⟩],10,"dot"⟩ }

@[reducible] def lastRanked : Ranked := @retrieval lastHost lastPlatform noGraph noSnippets

def unlimited (_ : Nat) : Deadline := ⟨0,fun _ => 0⟩

def numericRows (found : List Scored) : Bool :=
  found.all fun s => [s.score,s.textScore,s.vectorScore].all (·.all (!·.isNaN))

theorem numericRows_sound (passed : numericRows found = true) : ∀ s ∈ found, s.NoNaN := by
  intro s held x holds
  have checked := List.all_eq_true.mp passed s held
  rcases holds with same | same | same <;> simp_all

def fitsRows (found : List Scored) : Bool := decide (found.length < 2^64) && found.all fun s => decide (s.id < 2^128)

theorem fitsRows_sound (passed : fitsRows found = true) : RowsFit found := by
  simp only [fitsRows,Bool.and_eq_true,decide_eq_true_eq,List.all_eq_true] at passed
  exact ⟨passed.1,passed.2⟩

theorem ok_of_any {r : Result α} {p : α → Bool} (passed : r.toOption.any p = true) : ∃ a, r = .ok a ∧ p a = true := by
  cases r with
  | error e => cases passed
  | ok a => exact ⟨a,rfl,passed⟩

theorem ranked_pages_complete_docs :
    ∃ pages, @Follows lastHost lastRanked namedKey docSource docQuery 2 unlimited 0 none pages ∧
      (pages.flatMap (·.rows)).map (·.id) = [2,1,3] := by
  obtain ⟨found,selected,checked⟩ := ok_of_any (r := @rankedCandidates lastHost lastRanked docSource docQuery.unpaged)
    (p := fun found => numericRows found && fitsRows found) (by decide +kernel)
  obtain ⟨rows,ran,listed⟩ := ok_of_any (r := @executeFind lastHost lastRanked docSource docQuery.unpaged (unlimited 0))
    (p := fun rows => rows.map (·.id) == [2,1,3]) (by decide +kernel)
  rw [Bool.and_eq_true] at checked
  have only (other : List Scored)
      (same : @rankedCandidates lastHost lastRanked docSource docQuery.unpaged = .ok other) : other = found :=
    Except.ok.inj (same.symm.trans selected)
  obtain ⟨ordered,pages,full,follows,_,whole,_⟩ := @ranked_pages_complete lastHost lastPlatform noGraph noSnippets namedKey
    docSource docQuery 2 unlimited rfl (by decide)
    (by
      intro indexes _ vs _ approximate
      cases approximate)
    (by
      intro other same
      rw [only other same]
      exact numericRows_sound checked.1)
    (by
      intro other same
      rw [only other same]
      exact fitsRows_sound checked.2)
    (fun _ => ⟨rows,ran⟩)
  obtain rfl := Except.ok.inj ((full 0).symm.trans ran)
  refine ⟨pages,follows,?_⟩
  rw [whole]
  exact beq_iff_eq.mp listed

section
variable [Host]

end

@[reducible] def fullGraph : Approximate := ⟨fun indexes field query k metric _ _ _ =>
    @CollectionIndexes.vectorNearest lastHost lastPlatform indexes field query k metric⟩

section
attribute [local instance] lastHost lastPlatform fullGraph noSnippets namedKey

end

end AuraDb
