import AuraDb.Engine.Read
import AuraDb.Query.Cursor

/-! Aggregates scoped by a text search. The aggregate does not look at the clause's analyzer; it counts the rows of
the find with the same clause where the analyzer makes no difference. -/
namespace AuraDb
open Library Library.Ieee754 Std
variable {a : AggregateQuery} {src : Source}

def AggregateQuery.asFind (a : AggregateQuery) : FindQuery :=
  { FindQuery.new a.collection with filter := a.filter, textSearch := a.textSearch }

theorem AggregateQuery.asFind_whole (a : AggregateQuery) : a.asFind.Whole := ⟨rfl,rfl,rfl,rfl,.inl rfl⟩

section
variable [Host] {ids : List RecordId} {d : Deadline}

def hits (src : Source) (collection : String) (filter : Option Filter) (ids : List RecordId) :
    List (RecordId × Record) :=
  ids.filterMap fun id => (src.get collection id).bind fun r => if Filter.optional filter r then some (id,r) else none

def shownFrom (src : Source) (collection : String) (id : RecordId) : RecordId × Document :=
  (id,((src.get collection id).map (·.fields)).getD [])

theorem filter_keeps (src : Source) (collection : String) (filter : Option Filter) (found : List Scored) :
    (found.filter fun cand => keeps src collection filter cand.id).map (·.id) =
      (hits src collection filter (found.map (·.id))).map Prod.fst := by
  induction found with
  | nil => rfl
  | cons cand rest ih =>
    rw [List.filter_cons,List.map_cons,hits,List.filterMap_cons]
    rw [hits] at ih
    cases held : src.get collection cand.id with
    | none =>
      simp only [keeps,held,Option.bind_none]
      exact ih
    | some r =>
      cases accepted : Filter.optional filter r with
      | false =>
        simp only [keeps,held,accepted,Option.bind_some]
        exact ih
      | true =>
        simp only [keeps,held,accepted,Option.bind_some,if_true,List.map_cons]
        rw [← ih]
        rfl

end

section
variable [Host] [Platform]

/-- The collection has a text index on the field. -/
structure Searchable (src : Source) (collection : String) (ts : TextSearch) (schema : CollectionSchema)
    (indexes : CollectionIndexes) : Prop where
  declared : src.schema collection = some schema
  held : src.indexes collection = some indexes
  indexed : indexes.hasTextIndex ts.field = true

def TextSearch.Unanalyzed (ts : TextSearch) : Prop :=
  AnalyzerPreset.resolve ts.analyzer = .ok .default ∨ AnalyzerPreset.resolve ts.analyzer = .ok .simple

def plainSearch (indexes : CollectionIndexes) (ts : TextSearch) : Result (List (RecordId × F32)) :=
  if ts.rank == .bm25 then indexes.textBm25Search ts.field ts.query ts.operator.requireAll (ts.k1.getD bm25DefaultK1)
    (ts.b.getD bm25DefaultB) else indexes.textSearch ts.field ts.query

variable {ts : TextSearch} {schema : CollectionSchema} {indexes : CollectionIndexes} {results : List (RecordId × F32)}

theorem Searchable.found (searchable : Searchable src a.collection ts schema indexes) :
    ∃ results, plainSearch indexes ts = .ok results := by
  have indexed := searchable.indexed
  rw [CollectionIndexes.hasTextIndex,ExtTreeMap.contains_eq_isSome_getElem?,Option.isSome_iff_exists] at indexed
  obtain ⟨t,held⟩ := indexed
  unfold plainSearch
  split
  · exact ⟨_,by rw [CollectionIndexes.textBm25Search,held]⟩
  · exact ⟨_,by rw [CollectionIndexes.textSearch,held]⟩

variable {candidates : List Scored}

/-- Among the records that pass the filter, the find's candidates are those of the plain search. -/
def SameMatches (src : Source) (a : AggregateQuery) (candidates : List Scored) (results : List (RecordId × F32)) : Prop :=
  ((hits src a.collection a.filter (candidates.map (·.id))).map Prod.fst).Perm
    ((hits src a.collection a.filter (results.map Prod.fst)).map Prod.fst)

theorem TextSearch.Unanalyzed.same (plain : ts.Unanalyzed) (found : plainSearch indexes ts = .ok results)
    (accepted : rankedTextCandidates indexes (src.get a.collection) ts = .ok candidates) :
    SameMatches src a candidates results := by
  have same : candidates.map (·.id) = results.map Prod.fst := by
    obtain ⟨preset,resolved,accepted⟩ := bind_ok accepted
    obtain ⟨-,-,accepted⟩ := bind_ok accepted
    obtain ⟨results',analyzed,accepted⟩ := bind_ok accepted
    obtain rfl := Except.ok.inj accepted
    obtain rfl : results' = results := by
      rcases plain with plain | plain
      all_goals
        obtain rfl := Except.ok.inj (plain.symm.trans resolved)
        exact Except.ok.inj (analyzed.symm.trans found)
    rw [List.map_map]
    rfl
  rw [SameMatches,same]

variable [Approximate] [Snippets]

theorem Searchable.find (searchable : Searchable src a.collection ts schema indexes) (clause : a.textSearch = some ts)
    (found : rankedTextCandidates indexes (src.get a.collection) ts = .ok candidates) (elapsed : Stopwatch) :
    ∃ rows, AuraDb.find src a.asFind elapsed = .ok rows ∧ (rows.map fun row => (row.id,row.fields)).Perm
      (((hits src a.collection a.filter (candidates.map (·.id))).map Prod.fst).map (shownFrom src a.collection)) := by
  have accepted : a.asFind.validateSearchClauses = .ok () := by
    simp [FindQuery.validateSearchClauses,AggregateQuery.asFind,FindQuery.new,clause]
  have planned : planAccess src a.asFind schema indexes = .textRanked ts.field := by
    simp [planAccess,planFind,AggregateQuery.asFind,FindQuery.new,clause]
  have selected : selectCandidates src indexes a.asFind (.textRanked ts.field) = .ok candidates := by
    simp only [selectCandidates,AggregateQuery.asFind,clause]
    exact found
  obtain ⟨ordered,ran,perm⟩ := findVia_unlimited (d := .afterMs a.asFind.timeoutMs elapsed) rfl a.asFind_whole _ _ selected
  have schemaHeld : src.requireSchema a.asFind.collection = .ok schema := by
    simp [Source.requireSchema,AggregateQuery.asFind,FindQuery.new,searchable.declared]
  have executed : executeFind src a.asFind (.afterMs a.asFind.timeoutMs elapsed) = .ok ordered := by
    have indexesHeld : src.requireIndexes a.asFind.collection = .ok indexes := by
      simp [Source.requireIndexes,AggregateQuery.asFind,FindQuery.new,searchable.held]
    simp only [executeFind,accepted,schemaHeld,indexesHeld]
    rw [← planned] at ran
    exact ran
  have live (cand : Scored) (inside : cand ∈ ordered) : ∃ r, src.get a.asFind.collection cand.id = some r := by
    have kept := (List.mem_filter.mp (perm.mem_iff.mp inside)).2
    rw [keeps] at kept
    cases held : src.get a.asFind.collection cand.id with
    | none => simp [held] at kept
    | some r => exact ⟨r,rfl⟩
  obtain ⟨rows,made,ids,shown⟩ := @materializeRows_bare _ _ src schema a.asFind a.asFind_whole ordered live 0
  refine ⟨rows,?_,?_⟩
  · simp only [AuraDb.find,executed,materialize,schemaHeld]
    exact made
  · have left : (rows.map fun row => (row.id,row.fields)) = (rows.map (·.id)).map (shownFrom src a.collection) := by
      rw [List.map_map]
      refine List.map_congr_left fun row inside => ?_
      obtain ⟨r,held,fields⟩ := shown row inside
      simp only [Function.comp_apply,shownFrom,show src.get a.collection row.id = some r from held,Option.map_some,
        Option.getD_some,fields]
      rfl
    rw [left,ids,← filter_keeps]
    exact (perm.map _).map _

end

namespace Engine

@[reducible] def countHost : Host := { lastHost with f32OfNat := fun n => F32.ofF64 (F64.ofInt n) }

@[reducible] def countRanked : Ranked := @retrieval countHost lastPlatform noGraph noSnippets

def rowCount (e : Engine) (a : AggregateQuery) : Option Nat :=
  (@find countHost countRanked e.committedView a.asFind fun _ => 0).toOption.map (·.length)

end Engine

end AuraDb
