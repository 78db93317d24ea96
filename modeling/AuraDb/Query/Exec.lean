import AuraDb.Query.Ir

/-! The planner: the access paths that can seed a find, each with an estimate of its rows, and the choice of the
cheapest. The plan tree shown by `EXPLAIN` is not built. -/
namespace AuraDb
open Library.Ieee754 Std

structure CollectionStats where
  rowCount : Nat := 0
  fieldCardinality : ExtTreeMap String Nat compare := ∅
  vectorCount : ExtTreeMap String Nat compare := ∅
  textFieldDocs : ExtTreeMap String Nat compare := ∅
  deriving DecidableEq

namespace CollectionStats

def tally (fields : List String) (count : String → Nat) : ExtTreeMap String Nat compare :=
  fields.foldl (fun m f => if count f = 0 then m else m.alter f (fun held => some (held.getD 0 + count f))) ∅

/-- Statistics of a collection from its records, without the average record size, which
no plan depends on. -/
def compute [Host] (schema : CollectionSchema) (records : List Record) : CollectionStats where
  rowCount := records.length
  fieldCardinality := tally
    (((schema.fields.filter (fun f => f.primaryKey || f.unique || f.indexed)).map (·.name) ++
      schema.documentPathIndexes).dedup)
    (fun path => ((records.filterMap (fun r => r.getPath path)).filter (fun v => !v.isNull)
      |>.map indexKey).dedup.length)
  vectorCount := tally
    ((schema.fields.filter (fun f => match f.fieldType with
      | .vector _ => true
      | _ => false)).map (·.name))
    (fun name => (records.filter (fun r => match r.fields.get name with
      | some (.vector _) => true
      | _ => false)).length)
  textFieldDocs := tally schema.fullTextIndexes
    (fun name => (records.filter (fun r => match r.fields.get name with
      | some (.text s) => !isBlank s
      | _ => false)).length)

end CollectionStats

inductive Access where
  | pointLookup (field : String) (value : Value)
  | indexLookup (field : String) (value : Value)
  | documentPath (path : String) (value : Value)
  | fullText (field query : String)
  | textRanked (field : String)
  | vector (field : String) (k : Nat) (metric : String)
  | hybrid (textField vectorField : String)
  | scan
  deriving DecidableEq, Repr

structure Candidate where
  access : Access
  estimatedRows : Nat
  cost : F64

namespace Candidate

def costed (access : Access) (rows : Nat) : Candidate := ⟨access,rows,F64.ofInt rows⟩

def cheapest (first : Candidate) (rest : List Candidate) : Candidate :=
  rest.foldl (fun best c => if (best.cost.partialCmp c.cost).getD .eq = .gt then c else best) first

end Candidate

section
variable [Host] (schema : CollectionSchema) (indexes : CollectionIndexes) (stats : Option CollectionStats)
  (rowCount : Nat)

def defaultEqSelectivity : F64 := ⟨0x3fb999999999999a⟩ -- 0.10

def defaultTextSelectivity : F64 := ⟨0x3fa999999999999a⟩ -- 0.05

def fraction (rows : Nat) (selectivity : F64) : Nat :=
  max (Host.f64Ceil (Host.f64Mul (F64.ofInt rows) selectivity)) 1

def eqIndexEstimate (field : String) : Nat :=
  match stats.bind (fun s => s.fieldCardinality[field]?) with
  | some distinct =>
    if distinct = 0 then fraction rowCount defaultEqSelectivity else max (rowCount / distinct) 1
  | none => fraction rowCount defaultEqSelectivity

def equalityCandidate (field : String) (value : Value) : Candidate :=
  if schema.isUniqueField field then .costed (.pointLookup field value) 1
  else if schema.documentPathIndexes.contains field then
    .costed (.documentPath field value) (eqIndexEstimate stats rowCount field)
  else .costed (.indexLookup field value) (eqIndexEstimate stats rowCount field)

def textCandidate (field query : String) : Candidate :=
  .costed (.fullText field query)
    (fraction ((stats.bind (fun s => s.textFieldDocs[field]?)).getD rowCount) defaultTextSelectivity)

mutual
/-- Index-seeded candidates of a filter. Only conjunctions are descended into. -/
def collectCandidates : Filter → List Candidate
  | .compare field .eq value =>
    if indexes.hasEqualityIndex field then [equalityCandidate schema stats rowCount field value] else []
  | .containsText field query =>
    if indexes.hasTextIndex field then [textCandidate stats rowCount field query] else []
  | .and filters => collectAll filters
  | _ => []

def collectAll : List Filter → List Candidate
  | [] => []
  | f::rest => collectCandidates f ++ collectAll rest
end

def candidates (filter : Option Filter) : List Candidate :=
  filter.elim [] (collectCandidates schema indexes stats rowCount) ++ [.costed .scan rowCount]

end

/-- A ranked clause is the only way to satisfy itself; otherwise the cheapest candidate is taken. -/
def planFind [Host] (query : FindQuery) (schema : CollectionSchema) (indexes : CollectionIndexes)
    (stats : Option CollectionStats) (liveRowCount : Nat) : Candidate :=
  let rowCount := (stats.map (·.rowCount)).getD liveRowCount
  let vectors (field : String) := (stats.bind (fun s => s.vectorCount[field]?)).getD rowCount
  let texts (field : String) := (stats.bind (fun s => s.textFieldDocs[field]?)).getD rowCount
  match query.hybrid with
  | some hs =>
    let found := texts hs.textField + vectors hs.vectorField
    ⟨.hybrid hs.textField hs.vectorField,min (max hs.topK 1) (max found 1),F64.ofInt found⟩
  | none =>
    match query.textSearch with
    | some ts =>
      let docs := texts ts.field
      ⟨.textRanked ts.field,max ((query.limit.map (fun l => min l docs)).getD docs) 1,F64.ofInt docs⟩
    | none =>
      match query.vector with
      | some vs =>
        ⟨.vector vs.field vs.k vs.metric,min (vectors vs.field) (max vs.k 1),F64.ofInt (vectors vs.field)⟩
      | none =>
        match candidates schema indexes stats rowCount query.filter with
        | [] => .costed .scan rowCount
        | first::rest => Candidate.cheapest first rest

namespace Candidate

theorem cheapest_mem (first : Candidate) (rest : List Candidate) : cheapest first rest ∈ first::rest := by
  induction rest generalizing first with
  | nil => simp [cheapest]
  | cons c rest ih =>
    simp only [cheapest,List.foldl_cons]
    split
    · have inside := ih c
      exact List.mem_cons_of_mem _ inside
    · have inside := ih first
      simp only [cheapest] at inside
      rcases List.mem_cons.mp inside with same | later
      · rw [same]
        exact List.mem_cons_self
      · exact List.mem_cons_of_mem _ (List.mem_cons_of_mem _ later)

end Candidate

theorem planFind_mem [Host] (query : FindQuery) (schema : CollectionSchema) (indexes : CollectionIndexes)
    (stats : Option CollectionStats) (liveRowCount : Nat) (plain : query.ranked = false) :
    planFind query schema indexes stats liveRowCount ∈
      candidates schema indexes stats ((stats.map (·.rowCount)).getD liveRowCount) query.filter := by
  simp only [FindQuery.ranked,Bool.or_eq_false_iff,Option.isSome_eq_false_iff,Option.isNone_iff_eq_none]
    at plain
  obtain ⟨⟨noVector,noText⟩,noHybrid⟩ := plain
  simp only [planFind,noVector,noText,noHybrid]
  split
  · rename_i empty
    simp [candidates] at empty
  · rename_i first rest split
    rw [split]
    exact Candidate.cheapest_mem first rest

/-! Execution of reads over a data source: candidate selection along the planned access path, the residual
filter, ordering, paging and rows. -/

structure Source where
  schema : String → Option CollectionSchema
  indexes : String → Option CollectionIndexes
  scan : String → List Record
  get : String → RecordId → Option Record
  stats : String → Option CollectionStats

namespace Source

def resolveLink [Host] (src : Source) (target : String) (key : Value) : Option Record :=
  src.get target (deriveId target key)

def requireSchema (src : Source) (collection : String) : Result CollectionSchema :=
  match src.schema collection with
  | some schema => .ok schema
  | none => .error (.notFound ("collection " ++ collection))

def requireIndexes (src : Source) (collection : String) : Result CollectionIndexes :=
  match src.indexes collection with
  | some indexes => .ok indexes
  | none => .error (.internal ("missing indexes for " ++ collection))

end Source

inductive Poll where
  | beforeSelection | afterSelection | beforeOrdering
  | candidate (i : Nat)
  | facet (i : Nat)
  | member (i : Nat)
  deriving DecidableEq, Repr

abbrev Stopwatch := Poll → Nat

structure Deadline where
  limitMs : Nat
  elapsed : Stopwatch

namespace Deadline

def afterMs (limitMs : Option Nat) (elapsed : Stopwatch) : Deadline := ⟨limitMs.getD 0,elapsed⟩

def check (d : Deadline) (poll : Poll) : Result Unit :=
  if 0 < d.limitMs ∧ d.limitMs * 1000000 < d.elapsed poll then
    .error (.queryTimeout ("execution exceeded the " ++ toString d.limitMs ++ "ms deadline (elapsed ~" ++
      toString (d.elapsed poll / 1000000) ++ "ms)"))
  else .ok ()

def checkAt (d : Deadline) (poll : Nat → Poll) (i : Nat) : Result Unit :=
  if i % 1024 = 0 then d.check (poll i) else .ok ()

end Deadline

structure Scored where
  id : RecordId
  score : Option F32
  textScore : Option F32
  vectorScore : Option F32
  deriving DecidableEq, Repr

namespace Scored

def plain (id : RecordId) : Scored := ⟨id,none,none,none⟩

def ranked (id : RecordId) (score : F32) : Scored := ⟨id,some score,none,none⟩

end Scored

/-- Ranked retrieval and snippets. Nothing is assumed about them. -/
class Ranked where
  vector : CollectionIndexes → VectorSearch → Option AnnParams → Result (List Scored)
  text : CollectionIndexes → (RecordId → Option Record) → TextSearch → Result (List Scored)
  hybrid : CollectionIndexes → (RecordId → Option Record) → HybridSearch → Result (List Scored)
  bm25 : CollectionIndexes → TextSearch → Result (List (RecordId × F32))
  snippets : FindQuery → Record → Result (List Json)

section
variable [Host] [Ranked]

def Access.scoreOrdered : Access → Bool
  | .vector _ _ _ | .fullText _ _ | .textRanked _ | .hybrid _ _ => true
  | _ => false

/-- The candidates of an access path. A ranked path is only planned for a query that
has its clause. -/
def selectCandidates (src : Source) (indexes : CollectionIndexes) (q : FindQuery) : Access → Result (List Scored)
  | .vector _ _ _ => match q.vector with
    | some vs => Ranked.vector indexes vs q.vectorAnn
    | none => .ok []
  | .textRanked _ => match q.textSearch with
    | some ts => Ranked.text indexes (src.get q.collection) ts
    | none => .ok []
  | .hybrid _ _ => match q.hybrid with
    | some hs => Ranked.hybrid indexes (src.get q.collection) hs
    | none => .ok []
  | .fullText field query => (indexes.textSearch field query).map
      (fun found => found.map (fun p => Scored.ranked p.1 p.2))
  | .pointLookup field value | .indexLookup field value | .documentPath field value =>
    .ok (((indexes.lookupEq field value).getD []).map Scored.plain)
  | .scan => .ok ((src.scan q.collection).map (fun r => Scored.plain r.id))

def keeps (src : Source) (collection : String) (filter : Option Filter) (id : RecordId) : Bool :=
  match src.get collection id with
  | some r => Filter.optional filter r
  | none => false

def filterCandidates (src : Source) (q : FindQuery) (d : Deadline) : Nat → List Scored → Result (List Scored)
  | _, [] => .ok []
  | i, cand::rest => do
    d.checkAt Poll.candidate i
    let kept ← filterCandidates src q d (i + 1) rest
    return if keeps src q.collection q.filter cand.id then cand::kept else kept

def scoreCmp : Option F32 → Option F32 → Option Ordering
  | none, none => some .eq
  | none, some _ => some .lt
  | some _, none => some .gt
  | some a, some b => a.partialCmp b

def byScore (a b : Scored) : Ordering := ((scoreCmp b.score a.score).getD .eq).then (compare a.id b.id)

def keyOrder (key : OrderKey) (a b : Option Record) : Ordering :=
  let found := match a.bind (·.getPath key.field), b.bind (·.getPath key.field) with
    | some x, some y => (order x y).getD .eq
    | some _, none => .lt
    | none, some _ => .gt
    | none, none => .eq
  -- the missing values are swapped along with the others
  if key.desc then found.swap else found

def byKeys (src : Source) (collection : String) (keys : List OrderKey) (a b : Scored) : Ordering :=
  keys.foldr (fun key rest =>
    (keyOrder key (src.get collection a.id) (src.get collection b.id)).then rest) (compare a.id b.id)

def sortBy {α : Type} (cmp : α → α → Ordering) (items : List α) : List α :=
  items.insertionSort (fun a b => cmp a b ≠ .gt)

def orderMatched (src : Source) (q : FindQuery) (access : Access) (found : List Scored) : List Scored :=
  if access.scoreOrdered then sortBy byScore found
  else if q.orderBy.isEmpty then found
  else sortBy (byKeys src q.collection q.orderBy) found

/-- A hybrid clause's `top_k` is the limit where none is set. -/
def page (q : FindQuery) (found : List Scored) : List Scored :=
  match q.limit.or (q.hybrid.map (·.topK)) with
  | some limit => (found.drop (q.offset.getD 0)).take limit
  | none => found.drop (q.offset.getD 0)

def findVia (src : Source) (q : FindQuery) (d : Deadline) (indexes : CollectionIndexes) (access : Access) :
    Result (List Scored) := do
  d.check .beforeSelection
  let found ← selectCandidates src indexes q access
  d.check .afterSelection
  let matched ← filterCandidates src q d 0 found
  d.check .beforeOrdering
  return page q (orderMatched src q access matched)

def planAccess (src : Source) (q : FindQuery) (schema : CollectionSchema) (indexes : CollectionIndexes) : Access :=
  (planFind q schema indexes (src.stats q.collection)
    (if (src.stats q.collection).isSome then 0 else (src.scan q.collection).length)).access

def executeFind (src : Source) (q : FindQuery) (d : Deadline) : Result (List Scored) := do
  q.validateSearchClauses
  let schema ← src.requireSchema q.collection
  let indexes ← src.requireIndexes q.collection
  findVia src q d indexes (planAccess src q schema indexes)

def hydrate (src : Source) (target : String) (cardinality : Cardinality) (value : Option Value) : List Document :=
  let keys : List Value := match cardinality, value with
    | _, none => []
    | _, some .null => []
    | .toOne, some v => [v]
    | .toMany, some (.array items) => items
    | .toMany, some _ => []
  keys.filterMap (fun key => (src.resolveLink target key).map (·.fields))

def hydrateAll (src : Source) (schema : CollectionSchema) (q : FindQuery) (r : Record) :
    Result (ExtTreeMap String (List Document) compare) :=
  q.includes.foldlM (fun included name =>
    match schema.relationship name with
    | none => .error (.invalidRequest (name ++ " is not a relationship on " ++ q.collection))
    | some rel => .ok (included.insert name (hydrate src rel.target rel.cardinality (r.get name)))) ∅

def project (projection : Option (List String)) (fields : Document) : Document :=
  match projection with
  | none => fields
  | some names => names.foldl (fun row name =>
      match fields.get name with
      | some v => row.insert name v
      | none => row) []

def buildRowSnippets (q : FindQuery) (r : Record) : Result (List Json) :=
  if q.snippet.isNone || (q.textSearch.isNone && q.hybrid.isNone) then .ok [] else Ranked.snippets q r

def materializeRows (src : Source) (schema : CollectionSchema) (q : FindQuery) : Nat → List Scored → Result (List Row)
  | _, [] => .ok []
  | rank, cand::rest =>
    match src.get q.collection cand.id with
    | none => materializeRows src schema q (rank + 1) rest
    | some r => do
      let includes ← hydrateAll src schema q r
      let snippets ← buildRowSnippets q r
      let rows ← materializeRows src schema q (rank + 1) rest
      return ⟨cand.id,project q.projection r.fields,cand.score,cand.textScore,cand.vectorScore,
        if q.ranked then some (rank + 1) else none,includes,snippets⟩::rows

def materialize (src : Source) (q : FindQuery) (found : List Scored) : Result (List Row) := do
  let schema ← src.requireSchema q.collection
  materializeRows src schema q 0 found

def find (src : Source) (q : FindQuery) (elapsed : Stopwatch) : Result (List Row) := do
  let found ← executeFind src q (.afterMs q.timeoutMs elapsed)
  materialize src q found

omit [Ranked] in
def executeCount (src : Source) (q : CountQuery) : Result Nat := do
  let _ ← src.requireSchema q.collection
  return ((src.scan q.collection).filter (Filter.optional q.filter)).length

omit [Ranked] in
def executeExists (src : Source) (q : CountQuery) : Result Bool := do
  let _ ← src.requireSchema q.collection
  return (src.scan q.collection).any (Filter.optional q.filter)

end

end AuraDb
