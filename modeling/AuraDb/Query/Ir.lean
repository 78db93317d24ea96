import AuraDb.Index.Collection
import Mathlib.Data.List.Infix

/-! Filters and their evaluation on a record, as in `eval.rs`, where comparison coerces numbers; and the requests
of `ir.rs`: finds with their ranked clauses, counts, existence tests, aggregates and mutations, with the checks
made on them. -/
namespace AuraDb
open Library.Ieee754 Std

inductive CompareOp where
  | eq | ne | lt | lte | gt | gte | isIn
  deriving DecidableEq, Repr

inductive Filter where
  | and (filters : List Filter)
  | or (filters : List Filter)
  | not (filter : Filter)
  | compare (field : String) (op : CompareOp) (value : Value)
  | contains (field substring : String)
  | present (field : String)
  | containsText (field query : String)
  deriving Repr

/-- Equality with coercion between integers and floats and between timestamps and
integers. -/
def valuesEqual : Value → Value → Bool
  | .int a, .int b => (F64.ofInt a).eq (F64.ofInt b)
  | .int a, .float b => (F64.ofInt a).eq b
  | .float a, .int b => a.eq (F64.ofInt b)
  | .float a, .float b => a.eq b
  | .timestamp a, .int b => a == b
  | .int a, .timestamp b => a == b
  | a, b => a.eq b

def order : Value → Value → Option Ordering
  | .int a, .int b => (F64.ofInt a).partialCmp (F64.ofInt b)
  | .int a, .float b => (F64.ofInt a).partialCmp b
  | .float a, .int b => a.partialCmp (F64.ofInt b)
  | .float a, .float b => a.partialCmp b
  | .timestamp a, .timestamp b => some (Ord.compare a b)
  | .timestamp a, .int b => some (Ord.compare a b)
  | .int a, .timestamp b => some (Ord.compare a b)
  | .text a, .text b => some (Ord.compare a b)
  | .bool a, .bool b => some (Ord.compare a b)
  | .null, .null => some .eq
  | _, _ => none

def compareValues (actual : Value) (op : CompareOp) (expected : Value) : Bool :=
  match op with
  | .eq => valuesEqual actual expected
  | .ne => !valuesEqual actual expected
  | .isIn => match expected with
    | .array items => items.any (valuesEqual actual)
    | _ => false
  | .lt => order actual expected == some .lt
  | .lte => order actual expected == some .lt || order actual expected == some .eq
  | .gt => order actual expected == some .gt
  | .gte => order actual expected == some .gt || order actual expected == some .eq

def hasAllTerms [Host] (text query : String) : Bool :=
  let terms := TextIndex.distinctTerms (tokenize query)
  !terms.isEmpty && terms.all (fun t => (tokenize text).contains t)

namespace Filter

mutual
def accepts [Host] (r : Record) : Filter → Bool
  | .and filters => acceptsAll r filters
  | .or filters => acceptsAny r filters
  | .not filter => !accepts r filter
  | .present field => match r.getPath field with
    | some v => !v.isNull
    | none => false
  | .contains field substring => match (r.getPath field).bind Value.asText with
    | some s => decide (substring.toList <:+: s.toList)
    | none => false
  | .compare field op value => match r.getPath field with
    | some actual => compareValues actual op value
    | none => false
  | .containsText field query => match (r.getPath field).bind Value.asText with
    | some text => hasAllTerms text query
    | none => false

def acceptsAll [Host] (r : Record) : List Filter → Bool
  | [] => true
  | f::rest => accepts r f && acceptsAll r rest

def acceptsAny [Host] (r : Record) : List Filter → Bool
  | [] => false
  | f::rest => accepts r f || acceptsAny r rest
end

def optional [Host] (filter : Option Filter) (r : Record) : Bool := filter.elim true (accepts r)

end Filter

structure OrderKey where
  field : String
  desc : Bool
  deriving DecidableEq, Repr

inductive AnnFallback where
  | exact | error
  deriving DecidableEq, Repr

structure AnnParams where
  m : Option Nat
  efConstruction : Option Nat
  efSearch : Option Nat
  fallback : AnnFallback
  deriving DecidableEq, Repr

structure VectorSearch where
  field : String
  query : List F32
  k : Nat
  metric : String
  deriving DecidableEq, Repr

inductive TextOperator where
  | or | and
  deriving DecidableEq, Repr

inductive TextRank where
  | bm25 | termFrequency
  deriving DecidableEq, Repr

structure TextSearch where
  field : String
  query : String
  operator : TextOperator
  rank : TextRank
  k1 : Option F32
  b : Option F32
  analyzer : Option String
  deriving DecidableEq, Repr

inductive FusionMode where
  | weightedSum | reciprocalRankFusion
  deriving DecidableEq, Repr

structure HybridSearch where
  textField : String
  textQuery : String
  vectorField : String
  vector : List F32
  topK : Nat
  metric : Option String
  weightText : F32
  weightVector : F32
  fusion : FusionMode
  operator : TextOperator
  k1 : Option F32
  b : Option F32
  analyzer : Option String
  deriving DecidableEq, Repr

structure SnippetRequest where
  fields : List String
  maxFragments : Option Nat
  fragmentChars : Option Nat
  deriving DecidableEq, Repr

structure FindQuery where
  collection : String
  filter : Option Filter := none
  vector : Option VectorSearch := none
  vectorAnn : Option AnnParams := none
  textSearch : Option TextSearch := none
  hybrid : Option HybridSearch := none
  orderBy : List OrderKey := []
  limit : Option Nat := none
  offset : Option Nat := none
  projection : Option (List String) := none
  includes : List String := []
  timeoutMs : Option Nat := none
  snippet : Option SnippetRequest := none
  deriving Repr

def FindQuery.new (collection : String) : FindQuery := { collection }

def FindQuery.validateSearchClauses (q : FindQuery) : Result Unit :=
  let set := ([q.vector.isSome,q.textSearch.isSome,q.hybrid.isSome].filter id).length
  if 1 < set then .error (.invalidRequest
    "at most one of `vector`, `text_search`, or `hybrid` may be set on a query")
  else .ok ()

def FindQuery.ranked (q : FindQuery) : Bool := q.vector.isSome || q.textSearch.isSome || q.hybrid.isSome

structure CountQuery where
  collection : String
  filter : Option Filter := none
  deriving Repr

inductive AggregateOp where
  | count | min | max | avg
  deriving DecidableEq, Repr

namespace AggregateOp

def needsField : AggregateOp → Bool
  | .count => false
  | _ => true

def name : AggregateOp → String
  | .count => "count"
  | .min => "min"
  | .max => "max"
  | .avg => "avg"

end AggregateOp

structure AggregateMetric where
  op : AggregateOp
  field : Option String
  deriving DecidableEq, Repr

structure FacetRequest where
  field : String
  limit : Option Nat
  deriving DecidableEq, Repr

def FacetRequest.effectiveLimit (f : FacetRequest) : Nat := f.limit.getD 10

structure AggregateQuery where
  collection : String
  filter : Option Filter := none
  textSearch : Option TextSearch := none
  facets : List FacetRequest := []
  metrics : List AggregateMetric := []
  groupBy : Option String := none
  groupLimit : Option Nat := none
  timeoutMs : Option Nat := none
  deriving Repr

namespace AggregateQuery

def effectiveGroupLimit (q : AggregateQuery) : Nat := q.groupLimit.getD 1000

def validateGroup (q : AggregateQuery) : Result Unit :=
  if q.groupBy = some "" then .error (.invalidRequest "group_by field must not be empty") else
  match q.groupLimit with
  | none => .ok ()
  | some limit =>
    if limit = 0 then .error (.invalidRequest "group_limit must be >= 1")
    else if q.groupBy.isNone then .error (.invalidRequest "group_limit requires group_by")
    else .ok ()

def validateMetric (m : AggregateMetric) : Result Unit :=
  match m.field with
  | none =>
    if m.op.needsField then .error (.invalidRequest
      ("aggregation `" ++ m.op.name ++ "` requires a field"))
    else .ok ()
  | some f => if f = "" then .error (.invalidRequest "aggregation field must not be empty") else .ok ()

def validate (q : AggregateQuery) : Result Unit :=
  if q.facets.isEmpty && q.metrics.isEmpty && q.groupBy.isNone then .error (.invalidRequest
    "an aggregate query must request at least one facet, metric, or group_by") else
  match q.validateGroup with
  | .error e => .error e
  | .ok () =>
    match checkAll validateMetric q.metrics with
    | .error e => .error e
    | .ok () => checkAll (fun f : FacetRequest =>
        if f.field = "" then .error (.invalidRequest "facet field must not be empty") else .ok ()) q.facets

end AggregateQuery

inductive Mutation where
  | insert (collection : String) (fields : Document)
  | bulkInsert (collection : String) (records : List Document)
  | update (collection : String) (filter : Option Filter) (set : Document)
  | delete (collection : String) (filter : Option Filter)
  | upsert (collection : String) (fields : Document)
  deriving Repr

def Mutation.collection : Mutation → String
  | .insert c _ => c
  | .bulkInsert c _ => c
  | .update c _ _ => c
  | .delete c _ => c
  | .upsert c _ => c

structure MutationResult where
  inserted : Nat := 0
  updated : Nat := 0
  deleted : Nat := 0
  ids : List RecordId := []
  deriving DecidableEq, Repr

structure Row where
  id : RecordId
  fields : Document
  score : Option F32
  textScore : Option F32
  vectorScore : Option F32
  rank : Option Nat
  includes : ExtTreeMap String (List Document) compare
  snippets : List Json

end AuraDb
