import AuraDb.Query.Ordering

/-! Planner statistics choose the path of a find. The paths fetch their candidates in different orders, so the
choice is invisible only where the rows are ordered. -/
namespace AuraDb
open Library Library.Ieee754 Library.Sorting CollectionIndexes Std Scored
section
variable {src : Source} {schema : CollectionSchema} {idx : CollectionIndexes} {q : FindQuery} {access : Access}

variable [Host] {stats : Option CollectionStats} {rows : Nat} {cand : Candidate}

/-- The filter accepts at most one record, or no index answers it, or the rows are ordered by keys whose values
have one order. -/
def RowsOrdered (src : Source) (idx : CollectionIndexes) (q : FindQuery) : Prop :=
  (src.matching q).length ≤ 1 ∨
    (∀ f v, Filter.compare f .eq v ∈ q.conjuncts → idx.hasEqualityIndex f = false) ∨
    q.orderBy ≠ [] ∧ KeysGraded src q.collection q.orderBy ((src.matching q).map fun r => plain r.id)

/-- No text index answers the filter. -/
def Unranked (idx : CollectionIndexes) (q : FindQuery) : Prop :=
  ∀ f query, Filter.containsText f query ∈ q.conjuncts → idx.hasTextIndex f = false

/-- What makes every path give the same rows: the filter accepts nothing, or the lookups miss nothing, no path
ranks, and the order is fixed. -/
def Advisory (src : Source) (idx : CollectionIndexes) (q : FindQuery) : Prop :=
  src.matching q = [] ∨ KeysFound src idx q ∧ Unranked idx q ∧ RowsOrdered src idx q

theorem Advisory.keys (advisory : Advisory src idx q) : KeysFound src idx q := by
  rcases advisory with none | ⟨keys,_⟩
  · intro f v _ _ r accepted
    rw [none] at accepted
    cases accepted
  · exact keys

variable [Ranked]

namespace Source.Coherent
variable (coherent : Source.Coherent src q.collection schema idx)
include coherent

section
variable (valid : schema.validateDefinition = .ok ()) (advisory : Advisory src idx q)
include valid advisory

end

end Source.Coherent

namespace Source.Coherent
variable (coherent : Source.Coherent src q.collection schema idx) (plain : q.ranked = false)
include coherent plain

variable (valid : schema.validateDefinition = .ok ()) (advisory : Advisory src idx q)
include valid advisory

end Source.Coherent

end

namespace Engine

end Engine

end AuraDb
