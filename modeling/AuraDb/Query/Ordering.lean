import AuraDb.Library.Sorting
import AuraDb.Engine.Read

/-! The order of results. Values that are not comparable count as equal and the record id decides. -/
namespace AuraDb
open Library.Ieee754 Library.Sorting Std

/-- How `order_records` compares two values that are present: those without an order count as equal. -/
def valueOrder (x y : Value) : Ordering := (order x y).getD .eq

/-- Among these values, coming no later goes on from one pair to the next. -/
def Graded (values : List Value) : Prop :=
  ∀ u ∈ values, ∀ v ∈ values, ∀ w ∈ values, valueOrder u v ≠ .gt → valueOrder v w ≠ .gt → valueOrder u w ≠ .gt

instance (values : List Value) : Decidable (Graded values) := by
  unfold Graded
  infer_instance

section
variable (src : Source) (collection : String)

def valueAt (key : OrderKey) (found : Scored) : Option Value :=
  (src.get collection found.id).bind (·.getPath key.field)

/-- Each key reads values that can be graded, or none. -/
def KeysGraded (keys : List OrderKey) (found : List Scored) : Prop :=
  ∀ key ∈ keys, Graded (found.filterMap (valueAt src collection key))

instance (keys : List OrderKey) (found : List Scored) : Decidable (KeysGraded src collection keys found) := by
  unfold KeysGraded
  infer_instance

variable {found : List Scored} {keys : List OrderKey}

end

def readings : CollectionSchema := ⟨"readings",[⟨"level",.int,false,false,true,false⟩],[],[]⟩

def recorded (levels : List Value) : Source :=
  (@Engine.applyMutation plainHost (System.fresh readings ⟨60,1⟩).engine (.ok ()) (.bulkInsert "readings"
    (levels.map fun level => [("level",level)]))).1.committedView

end AuraDb
