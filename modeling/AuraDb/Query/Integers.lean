import AuraDb.Engine.Write

/-! Filters on integers. They are compared after conversion to `f64`, which keeps their order and takes some of
them for each other. -/
namespace AuraDb
open Library.Ieee754

def I64 (i : Int) : Prop := -2^63 ≤ i ∧ i < 2^63

def CompareOp.Relates : CompareOp → Int → Int → Prop
  | .eq, a, b => a = b
  | .ne, a, b => a ≠ b
  | .lt, a, b => a < b
  | .lte, a, b => a ≤ b
  | .gt, a, b => b < a
  | .gte, a, b => b ≤ a
  | .isIn, _, _ => False

def Distinguished (a b : Int) : Prop := a = b ∨ F64.ofInt a ≠ F64.ofInt b

theorem I64.bounded {i : Int} (wide : I64 i) : i.natAbs ≤ 2^63 := by
  unfold I64 at wide
  omega

theorem I64.isNaN_ofInt {i : Int} (wide : I64 i) : (F64.ofInt i).isNaN = false := F64.isNaN_ofInt wide.bounded

section
variable {a b : Int} (wide : I64 a) (wide' : I64 b)
include wide wide'

theorem valuesEqual_int : valuesEqual (.int a) (.int b) = true ↔ F64.ofInt a = F64.ofInt b := by
  simp only [valuesEqual,F64.eq,wide.isNaN_ofInt,wide'.isNaN_ofInt,Bool.not_false,Bool.true_and,decide_eq_true_eq]
  exact F64.position_ofInt_inj wide.bounded wide'.bounded

theorem position_lt (less : a < b) (apart : F64.ofInt a ≠ F64.ofInt b) :
    (F64.ofInt a).position < (F64.ofInt b).position := by
  have le := F64.position_ofInt_mono wide.bounded wide'.bounded less.le
  exact lt_of_le_of_ne le (fun same => apart ((F64.position_ofInt_inj wide.bounded wide'.bounded).mp same))

variable (apart : Distinguished a b)
include apart

theorem order_int : order (.int a) (.int b) = some (compare a b) := by
  simp only [order,F64.partialCmp,wide.isNaN_ofInt,wide'.isNaN_ofInt,Bool.or_self,Bool.false_eq_true,if_false]
  rcases apart with rfl | apart
  · simp
  · rcases lt_trichotomy a b with less | rfl | more
    · rw [compare_lt_iff_lt.mpr less,compare_lt_iff_lt.mpr (position_lt wide wide' less apart)]
    · exact absurd rfl apart
    · rw [compare_gt_iff_gt.mpr more,compare_gt_iff_gt.mpr (position_lt wide' wide more apart.symm)]

theorem compareValues_int (op : CompareOp) : compareValues (.int a) op (.int b) = true ↔ op.Relates a b := by
  have ordered := order_int wide wide' apart
  have equal : valuesEqual (.int a) (.int b) = true ↔ a = b := by
    rw [valuesEqual_int wide wide']
    exact ⟨fun same => apart.resolve_right (not_not.mpr same),congrArg _⟩
  cases op with
  | eq => exact equal
  | ne => simp [compareValues,CompareOp.Relates,← equal]
  | lt => simp [compareValues,CompareOp.Relates,ordered,compare_lt_iff_lt]
  | lte =>
    simp only [compareValues,CompareOp.Relates,ordered,Bool.or_eq_true,beq_iff_eq,Option.some.injEq,compare_lt_iff_lt,
      compare_eq_iff_eq]
    omega
  | gt => simp [compareValues,CompareOp.Relates,ordered,compare_gt_iff_gt]
  | gte =>
    simp only [compareValues,CompareOp.Relates,ordered,Bool.or_eq_true,beq_iff_eq,Option.some.injEq,compare_gt_iff_gt,
      compare_eq_iff_eq]
    omega
  | isIn => simp [compareValues,CompareOp.Relates]

end

/-- A field that holds an integer matches comparisons with an integer as the two are related exactly where the
conversion to `f64` keeps them apart, and so do the picks of an update or delete. -/
theorem integer_filters_exact [Host] (r : Record) (field : String) (a b : Int) (bs : List Int)
    (stored : r.getPath field = some (.int a)) (wide : I64 a) (wide' : I64 b) (listed : ∀ b ∈ bs, I64 b) :
    ((∀ op, op ≠ .isIn → (Filter.accepts r (.compare field op (.int b)) = true ↔ op.Relates a b)) ↔
      Distinguished a b) ∧
    ((Filter.accepts r (.compare field .isIn (.array (bs.map .int))) = true ↔ a ∈ bs) ↔
      a ∈ bs ∨ ∀ b ∈ bs, Distinguished a b) ∧
    ∀ (e : Engine) c, r ∈ e.targets c none →
      ((r ∈ e.targets c (some (.compare field .eq (.int b))) ↔ a = b) ↔ Distinguished a b) := by
  have reads (op : CompareOp) (value : Value) :
      Filter.accepts r (.compare field op value) = compareValues (.int a) op value := by
    rw [Filter.accepts,stored]
  have equal : compareValues (.int a) .eq (.int b) = true ↔ F64.ofInt a = F64.ofInt b := valuesEqual_int wide wide'
  have exact_iff : (F64.ofInt a = F64.ofInt b ↔ a = b) ↔ Distinguished a b := by
    unfold Distinguished
    tauto
  refine ⟨⟨?_,?_⟩,?_,?_⟩
  · intro agree
    rw [← exact_iff,← equal,← reads]
    exact agree .eq (by decide)
  · intro apart op _
    rw [reads]
    exact compareValues_int wide wide' apart op
  · -- the list is searched for an integer with the same conversion
    have found : Filter.accepts r (.compare field .isIn (.array (bs.map .int))) = true ↔
        ∃ b ∈ bs, F64.ofInt a = F64.ofInt b := by
      simp only [reads,compareValues,List.any_map,List.any_eq_true,Function.comp_apply]
      exact exists_congr fun b => and_congr_right fun inside => valuesEqual_int wide (listed b inside)
    rw [found]
    by_cases present : a ∈ bs
    · simp only [present,iff_true,true_or]
      exact ⟨a,present,rfl⟩
    · simp only [present,iff_false,false_or,not_exists,not_and,Distinguished]
      exact forall₂_congr fun b inside => (or_iff_right (fun same : a = b => present (same ▸ inside))).symm
  · intro e c live
    rw [← exact_iff,← equal,← reads]
    simp only [Engine.targets,List.mem_filter] at live ⊢
    simp only [live.1,true_and]
    rfl

def numbered (n : Int) : Record := ⟨1,"notes",[("n",.int n)],1,0⟩

theorem numbered_n (n : Int) : (numbered n).getPath "n" = some (.int n) := by
  rfl

theorem integer_filters_exact_powers : (numbered (2^53)).getPath "n" = some (.int (2^53)) ∧
    (@Filter.accepts plainHost (numbered (2^53)) (.compare "n" .gte (.int (2^54))) = true ↔ (2^54 : Int) ≤ 2^53) ∧
    (@Filter.accepts plainHost (numbered (2^53)) (.compare "n" .isIn (.array ([7,2^54].map .int))) = true ↔
      2^53 ∈ [(7 : Int),2^54]) := by
  have wide : I64 (2^53) ∧ I64 (2^54) ∧ ∀ b ∈ [7,2^54], I64 b := by simp [I64]
  obtain ⟨single,among,-⟩ := @integer_filters_exact plainHost (numbered (2^53)) "n" (2^53) (2^54) [7,2^54]
    (numbered_n _) wide.1 wide.2.1 wide.2.2
  have apart (b : Int) (inside : b ∈ [7,2^54]) : Distinguished (2^53) b := by
    simp only [List.mem_cons,List.not_mem_nil,or_false] at inside
    rcases inside with rfl | rfl <;> exact .inr (by decide)
  exact ⟨numbered_n _,single.mpr (apart _ (by simp)) .gte (by decide),among.mpr (.inr apart)⟩

/-- The number after 2^53 is taken for 2^53. -/
theorem integer_filter_conflates :
    (numbered (2^53+1)).getPath "n" = some (.int (2^53+1)) ∧ I64 (2^53+1) ∧ I64 (2^53) ∧
      @Filter.accepts plainHost (numbered (2^53+1)) (.compare "n" .eq (.int (2^53))) = true ∧
      ¬ CompareOp.eq.Relates (2^53+1) (2^53) := by
  refine ⟨numbered_n _,by unfold I64; omega,by unfold I64; omega,?_,by simp [CompareOp.Relates]⟩
  decide +kernel

end AuraDb
