import AuraDb.Query.Ir

/-! The limits that the server enforces on a request before the engine sees it: on vectors and depth, on the
page and the words of a read, and on its deadline. -/
namespace AuraDb
namespace Value

mutual
def nestingDepth : Value → Nat
  | .object fields => 1 + fieldsDepth fields
  | .array items => 1 + itemsDepth items
  | _ => 1

def itemsDepth : List Value → Nat
  | [] => 0
  | v::rest => max (nestingDepth v) (itemsDepth rest)

def fieldsDepth : List (String × Value) → Nat
  | [] => 0
  | (_,v)::rest => max (nestingDepth v) (fieldsDepth rest)
end

mutual
def maxVectorDim : Value → Nat
  | .vector v => v.length
  | .object fields => fieldsVectorDim fields
  | .array items => itemsVectorDim items
  | _ => 0

def itemsVectorDim : List Value → Nat
  | [] => 0
  | v::rest => max (maxVectorDim v) (itemsVectorDim rest)

def fieldsVectorDim : List (String × Value) → Nat
  | [] => 0
  | (_,v)::rest => max (maxVectorDim v) (fieldsVectorDim rest)
end

end Value

namespace Server

structure LimitsConfig where
  maxQueryLimit : Nat
  maxFullTextQueryTokens : Nat
  maxDocumentDepth : Nat
  maxVectorDimension : Nat
  maxTransactionWriteSet : Nat
  maxQueryTimeMs : Nat
  deriving DecidableEq, Repr

def documentDepth (doc : Document) : Nat := 1 + Value.fieldsDepth doc

def documentVectorDim (doc : Document) : Nat := Value.fieldsVectorDim doc

def enforceFieldLimits (limits : LimitsConfig) (field : FieldDef) : Result Unit :=
  match field.fieldType with
  | .vector dim =>
    if limits.maxVectorDimension < dim then .error (.limitExceeded ("vector field `" ++ field.name ++
      "` dimensionality " ++ toString dim ++ " exceeds limit " ++ toString limits.maxVectorDimension))
    else .ok ()
  | _ => .ok ()

def enforceSchemaLimits (limits : LimitsConfig) (schema : CollectionSchema) : Result Unit :=
  checkAll (enforceFieldLimits limits) schema.fields

/-- Among fields of one depth it is the last that `max_by_key` finds. -/
def deepestTopLevelField : Document → Option String
  | [] => none
  | (name,v)::rest => if v.nestingDepth ≤ Value.fieldsDepth rest then deepestTopLevelField rest else some name

def enforceDocumentLimits (limits : LimitsConfig) (doc : Document) : Result Unit :=
  if limits.maxDocumentDepth < documentDepth doc then .error (.limitExceeded ("document nesting depth " ++
    toString (documentDepth doc) ++ " exceeds limit " ++ toString limits.maxDocumentDepth ++
    ((deepestTopLevelField doc).map (fun f => " (deepest field `" ++ f ++ "`)")).getD ""))
  else if limits.maxVectorDimension < documentVectorDim doc then .error (.limitExceeded ("vector dimensionality " ++
    toString (documentVectorDim doc) ++ " exceeds limit " ++ toString limits.maxVectorDimension))
  else .ok ()

def enforceMutationLimits (limits : LimitsConfig) : Mutation → Result Unit
  | .insert _ fields => enforceDocumentLimits limits fields
  | .upsert _ fields => enforceDocumentLimits limits fields
  | .update _ _ set => enforceDocumentLimits limits set
  | .bulkInsert _ records => checkAll (enforceDocumentLimits limits) records
  | .delete _ _ => .ok ()

def mutationWriteCount : Mutation → Nat
  | .bulkInsert _ records => max records.length 1
  | _ => 1

def fullTextTokenCount [Host] (query : String) : Nat :=
  ((splitChars (fun c => !Host.isAlphanumeric c) query.toList).filter (fun part => !part.isEmpty)).length

section
variable [Host]

mutual
def enforceFilterLimits (limits : LimitsConfig) : Filter → Result Unit
  | .and filters => enforceFiltersLimits limits filters
  | .or filters => enforceFiltersLimits limits filters
  | .not filter => enforceFilterLimits limits filter
  | .containsText _ query =>
    if limits.maxFullTextQueryTokens < fullTextTokenCount query then .error (.limitExceeded ("full-text query has " ++
      toString (fullTextTokenCount query) ++ " tokens, exceeding limit " ++ toString limits.maxFullTextQueryTokens))
    else .ok ()
  | .compare _ _ _ => .ok ()
  | .contains _ _ => .ok ()
  | .present _ => .ok ()

def enforceFiltersLimits (limits : LimitsConfig) : List Filter → Result Unit
  | [] => .ok ()
  | f::rest => match enforceFilterLimits limits f with
    | .error e => .error e
    | .ok () => enforceFiltersLimits limits rest
end

end

def enforcePaginationLimits (limits : LimitsConfig) (limit offset : Option Nat) : Result Unit :=
  if limit.any (limits.maxQueryLimit < ·) then .error (.limitExceeded ("query limit " ++ toString (limit.getD 0) ++
    " exceeds limit " ++ toString limits.maxQueryLimit))
  else if offset.any (limits.maxQueryLimit < ·) then .error (.limitExceeded ("query offset " ++
    toString (offset.getD 0) ++ " exceeds limit " ++ toString limits.maxQueryLimit))
  else .ok ()

def effectiveQueryTimeoutMs (serverMaxMs : Nat) (perQueryMs : Option Nat) : Nat :=
  match serverMaxMs, perQueryMs with
  | 0, none => 0
  | 0, some perQuery => perQuery
  | max, none => max
  | max, some 0 => max
  | max, some perQuery => min max perQuery

inductive ReadRequest where
  | find (q : FindQuery)
  | count (q : CountQuery)
  | exist (q : CountQuery)
  | aggregate (q : AggregateQuery)
  | searchPage (find : FindQuery) (pageSize : Nat) (cursor : Option String)

namespace ReadRequest

def collection : ReadRequest → String
  | .find q => q.collection
  | .count q => q.collection
  | .exist q => q.collection
  | .aggregate q => q.collection
  | .searchPage q _ _ => q.collection

/-- The page that is asked for. A search page ignores the limit and the offset of its query. -/
def limit : ReadRequest → Option Nat
  | .find q => q.limit
  | .searchPage _ pageSize _ => some pageSize
  | _ => none

def offset : ReadRequest → Option Nat
  | .find q => q.offset
  | _ => none

def filter : ReadRequest → Option Filter
  | .find q => q.filter
  | .count q => q.filter
  | .exist q => q.filter
  | .aggregate q => q.filter
  | .searchPage q _ _ => q.filter

def timeoutMs : ReadRequest → Option Nat
  | .find q => q.timeoutMs
  | .aggregate q => q.timeoutMs
  | .searchPage q _ _ => q.timeoutMs
  | _ => none

/-- The deadline that the server writes into a request. A count has no place for one. -/
def setTimeout (timeout : Option Nat) : ReadRequest → ReadRequest
  | .find q => .find { q with timeoutMs := timeout }
  | .aggregate q => .aggregate { q with timeoutMs := timeout }
  | .searchPage q pageSize cursor => .searchPage { q with timeoutMs := timeout } pageSize cursor
  | req => req

def withDeadline (serverMaxMs : Nat) (req : ReadRequest) : ReadRequest :=
  let effective := effectiveQueryTimeoutMs serverMaxMs req.timeoutMs
  req.setTimeout (if 0 < effective then some effective else none)

end ReadRequest

section
variable [Host]

def enforceOptionalFilter (limits : LimitsConfig) : Option Filter → Result Unit
  | none => .ok ()
  | some f => enforceFilterLimits limits f

def enforceReadLimits (limits : LimitsConfig) : ReadRequest → Result Unit
  | .find q => do
    enforcePaginationLimits limits q.limit q.offset
    enforceOptionalFilter limits q.filter
  | .count q => enforceOptionalFilter limits q.filter
  | .exist q => enforceOptionalFilter limits q.filter
  | .aggregate q => enforceOptionalFilter limits q.filter
  | .searchPage q pageSize _ => do
    enforcePaginationLimits limits (some pageSize) none
    enforceOptionalFilter limits q.filter

end

mutual
def filterTexts : Filter → List String
  | .and filters => filtersTexts filters
  | .or filters => filtersTexts filters
  | .not filter => filterTexts filter
  | .containsText _ query => [query]
  | .compare _ _ _ => []
  | .contains _ _ => []
  | .present _ => []

def filtersTexts : List Filter → List String
  | [] => []
  | f::rest => filterTexts f ++ filtersTexts rest
end

/-- The full-text queries that a request ranks by, which no limit looks at. -/
def ReadRequest.searchTexts : ReadRequest → List String
  | .find q => (q.textSearch.map (·.query)).toList ++ (q.hybrid.map (·.textQuery)).toList
  | .searchPage q _ _ => (q.textSearch.map (·.query)).toList ++ (q.hybrid.map (·.textQuery)).toList
  | .aggregate q => (q.textSearch.map (·.query)).toList
  | _ => []

def ReadRequest.texts (req : ReadRequest) : List String :=
  (req.filter.map filterTexts).getD [] ++ req.searchTexts

/-- A query that the engine evaluates. Both kinds of `explain` run the find that they describe. -/
inductive Evaluation where
  | read (req : ReadRequest)
  | explain (q : FindQuery) (analyze : Bool)

def Evaluation.request : Evaluation → ReadRequest
  | .read req => req
  | .explain q _ => .find q

section
variable [Host]

/-- The bounds on one evaluation: its page, the words of its full-text queries, and its deadline. -/
structure ReadRequest.WithinLimits (limits : LimitsConfig) (req : ReadRequest) : Prop where
  limit : ∀ n ∈ req.limit, n ≤ limits.maxQueryLimit
  offset : ∀ n ∈ req.offset, n ≤ limits.maxQueryLimit
  texts : ∀ text ∈ req.texts, fullTextTokenCount text ≤ limits.maxFullTextQueryTokens
  deadline : limits.maxQueryTimeMs ≠ 0 → ∃ t, req.timeoutMs = some t ∧ 0 < t ∧ t ≤ limits.maxQueryTimeMs

def ReadRequest.isTimed : ReadRequest → Bool
  | .count _ => false
  | .exist _ => false
  | _ => true

/-- What the limits on reads leave to the request itself. -/
structure ReadRequest.SelfLimited (limits : LimitsConfig) (req : ReadRequest) : Prop where
  texts : ∀ text ∈ req.searchTexts, fullTextTokenCount text ≤ limits.maxFullTextQueryTokens
  timed : limits.maxQueryTimeMs ≠ 0 → req.isTimed = true

/-- An `explain` is run as it was sent: no bound is checked and no deadline written into it. -/
def Evaluation.SelfLimited (limits : LimitsConfig) : Evaluation → Prop
  | .read req => req.SelfLimited limits
  | .explain q _ => (ReadRequest.find q).WithinLimits limits

mutual
theorem enforceFilterLimits_ok (limits : LimitsConfig) : (f : Filter) → (enforceFilterLimits limits f = .ok () ↔
    ∀ text ∈ filterTexts f, fullTextTokenCount text ≤ limits.maxFullTextQueryTokens)
  | .and filters => enforceFiltersLimits_ok limits filters
  | .or filters => enforceFiltersLimits_ok limits filters
  | .not filter => enforceFilterLimits_ok limits filter
  | .containsText _ query => by
    by_cases long : limits.maxFullTextQueryTokens < fullTextTokenCount query
    · simp [enforceFilterLimits,filterTexts,long]
    · simp [enforceFilterLimits,filterTexts,long,Nat.le_of_not_lt long]
  | .compare _ _ _ => by simp [enforceFilterLimits,filterTexts]
  | .contains _ _ => by simp [enforceFilterLimits,filterTexts]
  | .present _ => by simp [enforceFilterLimits,filterTexts]

theorem enforceFiltersLimits_ok (limits : LimitsConfig) : (filters : List Filter) →
    (enforceFiltersLimits limits filters = .ok () ↔
      ∀ text ∈ filtersTexts filters, fullTextTokenCount text ≤ limits.maxFullTextQueryTokens)
  | [] => by simp [enforceFiltersLimits,filtersTexts]
  | f::rest => by
    have head := enforceFilterLimits_ok limits f
    have tail := enforceFiltersLimits_ok limits rest
    cases first : enforceFilterLimits limits f with
    | error e =>
      have refused := mt head.mpr (by simp [first])
      simp only [enforceFiltersLimits,first,filtersTexts,List.forall_mem_append,refused,false_and,reduceCtorEq]
    | ok u =>
      simp only [enforceFiltersLimits,first,filtersTexts,List.forall_mem_append,tail]
      exact ⟨fun later => ⟨head.mp first,later⟩,And.right⟩
end

omit [Host] in
theorem enforcePaginationLimits_ok (limits : LimitsConfig) (limit offset : Option Nat) :
    enforcePaginationLimits limits limit offset = .ok () ↔
      (∀ n ∈ limit, n ≤ limits.maxQueryLimit) ∧ ∀ n ∈ offset, n ≤ limits.maxQueryLimit := by
  have bound (asked : Option Nat) : asked.any (limits.maxQueryLimit < ·) = false ↔
      ∀ n ∈ asked, n ≤ limits.maxQueryLimit := by
    cases asked <;> simp
  rw [← bound,← bound,enforcePaginationLimits]
  cases limit.any (limits.maxQueryLimit < ·) <;> cases offset.any (limits.maxQueryLimit < ·) <;> simp

theorem enforceOptionalFilter_ok (limits : LimitsConfig) (filter : Option Filter) :
    enforceOptionalFilter limits filter = .ok () ↔
      ∀ text ∈ (filter.map filterTexts).getD [], fullTextTokenCount text ≤ limits.maxFullTextQueryTokens := by
  cases filter with
  | none => simp [enforceOptionalFilter]
  | some f => exact enforceFilterLimits_ok limits f

theorem enforceReadLimits_ok {limits : LimitsConfig} {req : ReadRequest}
    (accepted : enforceReadLimits limits req = .ok ()) :
    (∀ n ∈ req.limit, n ≤ limits.maxQueryLimit) ∧ (∀ n ∈ req.offset, n ≤ limits.maxQueryLimit) ∧
      ∀ text ∈ (req.filter.map filterTexts).getD [], fullTextTokenCount text ≤ limits.maxFullTextQueryTokens := by
  have unpaged : (∀ n ∈ (none : Option Nat), n ≤ limits.maxQueryLimit) := by simp
  cases req with
  | count q | exist q | aggregate q => exact ⟨unpaged,unpaged,(enforceOptionalFilter_ok ..).mp accepted⟩
  | find q | searchPage q pageSize cursor =>
    obtain ⟨_,paged,filtered⟩ := bind_ok accepted
    obtain ⟨limit,offset⟩ := (enforcePaginationLimits_ok ..).mp paged
    exact ⟨limit,offset,(enforceOptionalFilter_ok ..).mp filtered⟩

omit [Host] in
theorem effectiveQueryTimeoutMs_bound {serverMaxMs : Nat} (limited : serverMaxMs ≠ 0) (perQueryMs : Option Nat) :
    0 < effectiveQueryTimeoutMs serverMaxMs perQueryMs ∧
      effectiveQueryTimeoutMs serverMaxMs perQueryMs ≤ serverMaxMs := by
  unfold effectiveQueryTimeoutMs
  split <;> simp_all <;> omega

omit [Host] in
theorem ReadRequest.withDeadline_timeoutMs {serverMaxMs : Nat} (limited : serverMaxMs ≠ 0) {req : ReadRequest}
    (timed : req.isTimed = true) :
    (req.withDeadline serverMaxMs).timeoutMs = some (effectiveQueryTimeoutMs serverMaxMs req.timeoutMs) := by
  have positive := (effectiveQueryTimeoutMs_bound limited req.timeoutMs).1
  cases req with
  | count q | exist q => cases timed
  | find q | aggregate q | searchPage q pageSize cursor => exact if_pos positive

omit [Host] in
theorem ReadRequest.timeoutMs_untimed {req : ReadRequest} (untimed : req.isTimed = false) (timeout : Option Nat) :
    (req.setTimeout timeout).timeoutMs = none := by
  cases req with
  | count q | exist q => rfl
  | find q | aggregate q | searchPage q pageSize cursor => cases untimed

/-- A read that the limits accept is within all bounds exactly where its own ranking texts are, and where it is
not a count under a deadline. -/
theorem ReadRequest.withinLimits_iff {limits : LimitsConfig} {req : ReadRequest}
    (accepted : enforceReadLimits limits req = .ok ()) :
    (req.withDeadline limits.maxQueryTimeMs).WithinLimits limits ↔
      (req.withDeadline limits.maxQueryTimeMs).SelfLimited limits := by
  obtain ⟨limit,offset,filtered⟩ := enforceReadLimits_ok accepted
  have kept (timeout : Option Nat) : (req.setTimeout timeout).limit = req.limit ∧
      (req.setTimeout timeout).offset = req.offset ∧ (req.setTimeout timeout).filter = req.filter ∧
      (req.setTimeout timeout).isTimed = req.isTimed := by
    cases req <;> exact ⟨rfl,rfl,rfl,rfl⟩
  obtain ⟨sameLimit,sameOffset,sameFilter,sameTimed⟩ := kept
    (if 0 < effectiveQueryTimeoutMs limits.maxQueryTimeMs req.timeoutMs then
      some (effectiveQueryTimeoutMs limits.maxQueryTimeMs req.timeoutMs) else none)
  constructor
  · intro within
    refine ⟨fun text inside => within.texts text (List.mem_append_right _ inside),fun limited => ?_⟩
    obtain ⟨t,isSet,_⟩ := within.deadline limited
    rw [withDeadline,sameTimed]
    cases timed : req.isTimed with
    | true => rfl
    | false => cases isSet.symm.trans (timeoutMs_untimed timed _)
  · intro own
    refine ⟨sameLimit ▸ limit,sameOffset ▸ offset,List.forall_mem_append.mpr ⟨sameFilter ▸ filtered,own.texts⟩,?_⟩
    intro limited
    obtain ⟨positive,bounded⟩ := effectiveQueryTimeoutMs_bound limited req.timeoutMs
    exact ⟨_,withDeadline_timeoutMs limited (sameTimed.symm.trans (own.timed limited)),positive,bounded⟩

end

end Server

end AuraDb
