import AuraDb.Query.AccessPath

/-! Aggregations and terms facets, as in `aggregate.rs`, over one matched set; a facet over an indexed field
without filter is read off the posting lists instead. -/
namespace AuraDb
open Library.Ieee754 Std

structure MetricValue where
  op : String
  field : Option String
  value : Value

structure FacetBucket where
  value : Value
  count : Nat

structure FacetValues where
  field : String
  usedIndex : Bool
  buckets : List FacetBucket

structure GroupBucket where
  key : Value
  count : Nat
  metrics : List MetricValue

structure GroupByResult where
  field : String
  groups : List GroupBucket
  groupCountTotal : Nat
  groupLimit : Nat

structure AggregateResult where
  collection : String
  matched : Nat
  scanned : Nat
  filterPresent : Bool
  searchScoped : Bool
  metrics : List MetricValue
  facets : List FacetValues
  groups : Option GroupByResult

def validateField (schema : CollectionSchema) (what field : String) : Result Unit :=
  match schema.field field with
  | some d => match d.fieldType with
    | .vector _ => .error (.invalidRequest
        (what ++ " field `" ++ field ++ "` is a vector; " ++ what ++ "s require a scalar field"))
    | _ => .ok ()
  | none =>
    if field.toList.contains '.' then .ok () else .error (.invalidRequest
      (what ++ " field `" ++ field ++ "` is not a field of collection `" ++ schema.name ++ "`"))

def hex16 (n : Nat) : String := String.ofList ((Nat.toDigits 16 n).leftpad 16 '0')

def scalarKey (value : Value) : Result (Option String) :=
  match value with
  | .null => .ok none
  | .bool b => .ok (some ("b:" ++ toString b))
  | .int i => .ok (some ("i:" ++ toString i))
  | .float f => .ok (some ("f:" ++ hex16 f.bits.toNat))
  | .text s => .ok (some ("s:" ++ s))
  | .timestamp t => .ok (some ("t:" ++ toString t))
  | _ => .error (.invalidRequest
      ("cannot facet on a " ++ value.typeName ++ " value; facets require scalar fields"))

def keyText (value : Value) : Option String := match scalarKey value with
  | .ok key => key
  | .error _ => none

def bucketCmp (a b : Value × Nat) : Ordering :=
  (compare b.2 a.2).then ((order a.1 b.1).getD
    ((compare a.1.typeName b.1.typeName).then (compare (keyText a.1) (keyText b.1))))

abbrev Buckets (α : Type) := ExtTreeMap String (Value × α) compare

def addToBucket {α : Type} (value : Option Value) (first : α) (more : α → α) (buckets : Buckets α) :
    Result (Buckets α) :=
  match value with
  | none => .ok buckets
  | some v => do
    match ← scalarKey v with
    | none => return buckets
    | some key => return buckets.alter key (fun held => match held with
      | some (rep,a) => some (rep,more a)
      | none => some (v,first))

section

def validateFields (schema : CollectionSchema) (q : AggregateQuery) : Result Unit := do
  checkAll (validateField schema "aggregation") (q.metrics.filterMap (·.field))
  checkAll (validateField schema "facet") (q.facets.map (·.field))
  checkAll (validateField schema "group_by") q.groupBy.toList

variable [Host]

def groupMembers (field : String) (d : Deadline) :
    Nat → List Record → Buckets (List Record) → Result (Buckets (List Record))
  | _, [], groups => .ok groups
  | i, r::rest, groups => do
    d.checkAt Poll.member i
    let groups ← addToBucket (r.getPath field) [r] (· ++ [r]) groups
    groupMembers field d (i + 1) rest groups

def matchedRecords (src : Source) (q : AggregateQuery) (d : Deadline) : Nat → List RecordId → Result (List Record)
  | _, [] => .ok []
  | i, id::rest => do
    d.checkAt Poll.candidate i
    let others ← matchedRecords src q d (i + 1) rest
    return match src.get q.collection id with
      | some r => if Filter.optional q.filter r then r::others else others
      | none => others

variable [Ranked]

def asNumeric : Value → Option F64
  | .int i => some (F64.ofInt i)
  | .float f => some f
  | _ => none

def average (values : List Value) : Value :=
  let numbers := values.filterMap asNumeric
  if numbers.isEmpty then .null
  else .float (Host.f64Div (numbers.foldl Host.f64Add ⟨0⟩) (F64.ofInt numbers.length))

def extreme (better : Ordering) (values : List Value) : Value :=
  ((values.filter (fun v => !v.isNull)).foldl (fun best v => match best with
    | none => some v
    | some cur => if order v cur = some better then some v else some cur) none).getD .null

def computeMetric (m : AggregateMetric) (matched : List Record) : MetricValue :=
  let values := matched.filterMap (·.getPath (m.field.getD ""))
  ⟨m.op.name,m.field,match m.op with
    | .count => .int matched.length
    | .avg => average values
    | .min => extreme .lt values
    | .max => extreme .gt values⟩

/-- Served from the posting lists where nothing restricts the matched set and the field has an equality index.
-/
def computeFacet (src : Source) (indexes : CollectionIndexes) (collection : String) (f : FacetRequest)
    (matched : List Record) (canUseIndex : Bool) : Result FacetValues := do
  let useIndex := canUseIndex && indexes.hasEqualityIndex f.field
  let groups : Buckets Nat ←
    if useIndex then
      ((indexes.facetPostings f.field).getD []).foldlM (fun groups p =>
        addToBucket ((src.get collection p.1).bind (·.getPath f.field)) p.2 (· + p.2) groups) ∅
    else matched.foldlM (fun groups r => addToBucket (r.getPath f.field) 1 (· + 1) groups) ∅
  let buckets := sortBy bucketCmp (groups.toList.map Prod.snd)
  return ⟨f.field,useIndex,(buckets.take f.effectiveLimit).map (fun b => ⟨b.1,b.2⟩)⟩

def computeFacets (src : Source) (indexes : CollectionIndexes) (q : AggregateQuery) (matched : List Record)
    (d : Deadline) : Nat → List FacetRequest → Result (List FacetValues)
  | _, [] => .ok []
  | i, f::rest => do
    d.check (.facet i)
    let first ← computeFacet src indexes q.collection f matched (q.filter.isNone && q.textSearch.isNone)
    let others ← computeFacets src indexes q matched d (i + 1) rest
    return first::others

def computeGroups (field : String) (q : AggregateQuery) (matched : List Record) (d : Deadline) :
    Result GroupByResult := do
  let groups ← groupMembers field d 0 matched ∅
  let buckets := sortBy (fun a b => bucketCmp (a.1,a.2.length) (b.1,b.2.length)) (groups.toList.map Prod.snd)
  return ⟨field,(buckets.take q.effectiveGroupLimit).map (fun b =>
    ⟨b.1,b.2.length,q.metrics.map (fun m => computeMetric m b.2)⟩),groups.size,q.effectiveGroupLimit⟩

def aggregateCandidates (src : Source) (indexes : CollectionIndexes) (q : AggregateQuery) (d : Deadline) :
    Result (List RecordId) :=
  match q.textSearch with
  | none => .ok ((src.scan q.collection).map (·.id))
  | some ts => do
    d.check .beforeSelection
    let found ← match ts.rank with
      | .termFrequency => indexes.textSearch ts.field ts.query
      | .bm25 => Ranked.bm25 indexes ts
    return found.map Prod.fst

def executeAggregate (src : Source) (q : AggregateQuery) (d : Deadline) : Result AggregateResult := do
  q.validate
  let schema ← src.requireSchema q.collection
  let indexes ← src.requireIndexes q.collection
  validateFields schema q
  let ids ← aggregateCandidates src indexes q d
  let matched ← matchedRecords src q d 0 ids
  let facets ← computeFacets src indexes q matched d 0 q.facets
  let groups ← match q.groupBy with
    | some field => (computeGroups field q matched d).map some
    | none => .ok none
  return ⟨q.collection,matched.length,ids.length,q.filter.isSome,q.textSearch.isSome,
    q.metrics.map (fun m => computeMetric m matched),facets,groups⟩

end

/-! Reads as values, and what of a source they look at: its records, and the path and index that it plans. -/

inductive Read where
  | get (collection : String) (id : RecordId)
  | find (q : FindQuery) (elapsed : Stopwatch)
  | count (q : CountQuery)
  | exist (q : CountQuery)
  | aggregate (q : AggregateQuery) (elapsed : Stopwatch)

namespace Read

def collection : Read → String
  | .get c _ => c
  | .find q _ => q.collection
  | .count q => q.collection
  | .exist q => q.collection
  | .aggregate q _ => q.collection

end Read

inductive Answer where
  | record (found : Option Record)
  | rows (found : List Row)
  | count (n : Nat)
  | exist (found : Bool)
  | aggregate (found : AggregateResult)

def Source.answer [Host] [Ranked] (src : Source) : Read → Result Answer
  | .get c id => .ok (.record (src.get c id))
  | .find q elapsed => (AuraDb.find src q elapsed).map .rows
  | .count q => (executeCount src q).map .count
  | .exist q => (executeExists src q).map .exist
  | .aggregate q elapsed => (executeAggregate src q (.afterMs q.timeoutMs elapsed)).map .aggregate

namespace Read

def Asks (idx : CollectionIndexes) : Read → Prop
  | .find q _ => q.ranked = true ∨ (∃ f v, .compare f .eq v ∈ q.conjuncts ∧ idx.hasEqualityIndex f = true) ∨
      ∃ f query, .containsText f query ∈ q.conjuncts ∧ idx.hasTextIndex f = true
  | .aggregate q _ => q.textSearch.isSome = true ∨
      (q.filter = none ∧ ∃ f ∈ q.facets, idx.hasEqualityIndex f.field = true)
  | _ => False

end Read

structure Source.SameRecords (src src' : Source) : Prop where
  schema : src'.schema = src.schema
  scan : src'.scan = src.scan
  get : src'.get = src.get

section
variable {src src' : Source} {q : FindQuery} {schema : CollectionSchema} {idx idx' : CollectionIndexes}

private theorem computeFacets_congr (same : src'.get = src.get) (a : AggregateQuery) (matched : List Record)
    (d : Deadline) (i : Nat) (facets : List FacetRequest) :
    computeFacets src' idx a matched d i facets = computeFacets src idx a matched d i facets := by
  induction facets generalizing i with
  | nil => rfl
  | cons f rest ih => simp only [computeFacets,computeFacet,same,ih]

variable [Host]

private theorem filterCandidates_congr (same : src'.get = src.get) (d : Deadline) (i : Nat) (found : List Scored) :
    filterCandidates src' q d i found = filterCandidates src q d i found := by
  induction found generalizing i with
  | nil => rfl
  | cons cand rest ih =>
    have kept : keeps src' q.collection q.filter cand.id = keeps src q.collection q.filter cand.id := by
      rw [keeps,keeps,same]
    rw [filterCandidates,filterCandidates,ih,kept]

theorem filterCandidates_ok {d : Deadline} {i : Nat} {found kept : List Scored}
    (passed : filterCandidates src q d i found = .ok kept) :
    kept = found.filter fun cand => keeps src q.collection q.filter cand.id := by
  induction found generalizing i kept with
  | nil => exact (Except.ok.inj passed).symm
  | cons cand rest ih =>
    obtain ⟨_,_,more⟩ := bind_ok passed
    obtain ⟨later,filtered,last⟩ := bind_ok more
    rw [ih filtered] at last
    rw [List.filter_cons]
    exact (Except.ok.inj last).symm

private theorem matchedRecords_congr (same : src'.get = src.get) (a : AggregateQuery) (d : Deadline) (i : Nat)
    (ids : List RecordId) : matchedRecords src' a d i ids = matchedRecords src a d i ids := by
  induction ids generalizing i with
  | nil => rfl
  | cons id rest ih => simp only [matchedRecords,ih,same]

variable [Ranked]

theorem findVia_ok {d : Deadline} {access : Access} {found rows : List Scored}
    (selected : selectCandidates src idx q access = .ok found) (ran : findVia src q d idx access = .ok rows) :
    rows = page q (orderMatched src q access (found.filter fun cand => keeps src q.collection q.filter cand.id)) := by
  obtain ⟨_,_,started⟩ := bind_ok ran
  obtain ⟨fetched,chosen,started⟩ := bind_ok started
  obtain rfl : found = fetched := Except.ok.inj (selected.symm.trans chosen)
  obtain ⟨_,_,started⟩ := bind_ok started
  obtain ⟨kept,filtered,started⟩ := bind_ok started
  obtain ⟨_,_,last⟩ := bind_ok started
  rw [filterCandidates_ok filtered] at last
  exact (Except.ok.inj last).symm

theorem materializeRows_congr (same : src'.get = src.get) (rank : Nat) (found : List Scored) :
    materializeRows src' schema q rank found = materializeRows src schema q rank found := by
  induction found generalizing rank with
  | nil => rfl
  | cons cand rest ih =>
    simp only [materializeRows,ih,same,hydrateAll,hydrate,Source.resolveLink]

theorem findVia_congr (same : src.SameRecords src') (d : Deadline) (access : Access) :
    findVia src' q d idx access = findVia src q d idx access := by
  have selected : selectCandidates src' idx q access = selectCandidates src idx q access := by
    cases access <;> simp only [selectCandidates,same.get,same.scan]
  have keys : byKeys src' q.collection q.orderBy = byKeys src q.collection q.orderBy := by
    funext a b
    rw [byKeys,byKeys,same.get]
  have ordered (found : List Scored) : orderMatched src' q access found = orderMatched src q access found := by
    rw [orderMatched,orderMatched,keys]
  simp only [findVia,selected,filterCandidates_congr same.get,ordered]

private theorem executeAggregate_congr (same : src.SameRecords src') {a : AggregateQuery}
    (index : src'.indexes a.collection = src.indexes a.collection) (d : Deadline) :
    executeAggregate src' a d = executeAggregate src a d := by
  simp only [executeAggregate,Source.requireIndexes,Source.requireSchema,index,same.schema,aggregateCandidates,same.scan,
    matchedRecords_congr same.get,computeFacets_congr same.get]

namespace CollectionIndexes.SameShape

omit [Host] [Ranked]

section
variable (shape : idx.SameShape idx')
include shape

theorem hasEqualityIndex (f : String) : idx.hasEqualityIndex f = idx'.hasEqualityIndex f := by
  simp only [CollectionIndexes.hasEqualityIndex,ExtTreeMap.contains_eq_isSome_getElem?,shape.unique,
    shape.secondary,shape.docPath]

theorem hasTextIndex (f : String) : idx.hasTextIndex f = idx'.hasTextIndex f := by
  simp only [CollectionIndexes.hasTextIndex,ExtTreeMap.contains_eq_isSome_getElem?,shape.text]

theorem asks_iff (r : Read) : r.Asks idx ↔ r.Asks idx' := by
  cases r <;> simp only [Read.Asks,shape.hasEqualityIndex,shape.hasTextIndex]

theorem keyUnder [Host] (f : String) : idx.keyUnder f = idx'.keyUnder f := by
  funext r
  simp only [CollectionIndexes.keyUnder,ExtTreeMap.contains_eq_isSome_getElem?,shape.unique,shape.secondary]

end

end CollectionIndexes.SameShape

section
omit [Ranked]

mutual
private theorem collectCandidates_shape (shape : idx.SameShape idx') (stats : Option CollectionStats) (rows : Nat) :
    (filter : Filter) →
    collectCandidates schema idx stats rows filter = collectCandidates schema idx' stats rows filter
  | .and filters => by
    rw [collectCandidates,collectCandidates]
    exact collectAll_shape shape stats rows filters
  | .compare f .eq v => by rw [collectCandidates,collectCandidates,shape.hasEqualityIndex]
  | .containsText f query => by rw [collectCandidates,collectCandidates,shape.hasTextIndex]
  | .or _ | .not _ | .contains _ _ | .present _ | .compare _ .ne _ | .compare _ .lt _ | .compare _ .lte _
  | .compare _ .gt _ | .compare _ .gte _ | .compare _ .isIn _ => by simp only [collectCandidates]

private theorem collectAll_shape (shape : idx.SameShape idx') (stats : Option CollectionStats) (rows : Nat) :
    (filters : List Filter) → collectAll schema idx stats rows filters = collectAll schema idx' stats rows filters
  | [] => by simp only [collectAll]
  | f::rest => by rw [collectAll,collectAll,collectCandidates_shape shape stats rows f,
      collectAll_shape shape stats rows rest]
end

end

omit [Ranked] in
theorem planAccess_shape (shape : idx.SameShape idx') (src : Source) (q : FindQuery) :
    planAccess src q schema idx = planAccess src q schema idx' := by
  have same (rows : Nat) : candidates schema idx (src.stats q.collection) rows q.filter =
      candidates schema idx' (src.stats q.collection) rows q.filter := by
    rw [candidates,candidates]
    cases q.filter with
    | none => rfl
    | some filter => rw [Option.elim_some,Option.elim_some,collectCandidates_shape shape]
  simp only [planAccess,planFind,same]

omit [Ranked] in
theorem planAccess_unasked {elapsed : Stopwatch} (unasked : ¬(Read.find q elapsed).Asks idx) :
    planAccess src q schema idx = .scan := by
  simp only [Read.Asks,not_or,Bool.not_eq_true] at unasked
  obtain ⟨plain,noEquality,noText⟩ := unasked
  have planned := planFind_mem q schema idx (src.stats q.collection)
    (if (src.stats q.collection).isSome then 0 else (src.scan q.collection).length) plain
  rcases (mem_candidates _ _ _ _ _ _).mp planned with (⟨f,v,asked,indexed,_⟩ | ⟨f,query,asked,indexed,_⟩) | isScan
  · exact absurd ⟨f,v,asked,indexed⟩ noEquality
  · exact absurd ⟨f,query,asked,indexed⟩ noText
  · rw [planAccess,isScan]
    rfl

namespace Source
section
variable (same : src.SameRecords src')
include same

private theorem find_congr (elapsed : Stopwatch)
    (ran : ∀ d, executeFind src' q d = executeFind src q d) : find src' q elapsed = find src q elapsed := by
  simp only [find,ran,materialize,requireSchema,same.schema,materializeRows_congr same.get]

omit [Ranked] in
private theorem count_congr (c : CountQuery) :
    executeCount src' c = executeCount src c ∧ executeExists src' c = executeExists src c := by
  simp only [executeCount,executeExists,requireSchema,same.schema,same.scan,and_self]

theorem answer_congr (r : Read) (index : src'.indexes r.collection = src.indexes r.collection)
    (plan : ∀ q elapsed, r = .find q elapsed → ∀ schema idx, src.schema q.collection = some schema →
      src.indexes q.collection = some idx → planAccess src' q schema idx = planAccess src q schema idx) :
    src'.answer r = src.answer r := by
  cases r with
  | get c id => simp only [answer,same.get]
  | count q => simp only [answer,(count_congr same q).1]
  | exist q => simp only [answer,(count_congr same q).2]
  | find q elapsed =>
    simp only [answer,Read.collection] at index ⊢
    rw [find_congr same elapsed]
    intro d
    simp only [executeFind,requireSchema,requireIndexes,same.schema,index]
    cases declared : src.schema q.collection with
    | none => simp only [bind,Except.bind]
    | some schema =>
      cases held : src.indexes q.collection with
      | none => simp only [bind,Except.bind]
      | some idx => simp only [bind,Except.bind,plan q elapsed rfl schema idx declared held,findVia_congr same]
  | aggregate q elapsed =>
    rw [answer,answer,executeAggregate_congr same index]

end

theorem answer_undeclared (r : Read) (undeclared : src.schema r.collection = none) (scans : ∀ c i, r ≠ .get c i) :
    ∃ err, src.answer r = .error err := by
  have missing : src.requireSchema r.collection = .error (.notFound ("collection " ++ r.collection)) := by
    rw [requireSchema,undeclared]
  cases r with
  | get c id => exact absurd rfl (scans c id)
  | count q =>
    simp only [Read.collection] at missing
    exact ⟨_,by simp only [answer,executeCount,missing]; rfl⟩
  | exist q =>
    simp only [Read.collection] at missing
    exact ⟨_,by simp only [answer,executeExists,missing]; rfl⟩
  | find q elapsed =>
    simp only [Read.collection] at missing
    simp only [answer,find,executeFind,missing]
    cases q.validateSearchClauses with
    | error err => exact ⟨err,rfl⟩
    | ok u => exact ⟨_,rfl⟩
  | aggregate q elapsed =>
    simp only [Read.collection] at missing
    simp only [answer,executeAggregate,missing]
    cases q.validate with
    | error err => exact ⟨err,rfl⟩
    | ok u => exact ⟨_,rfl⟩

end Source

end

end AuraDb
