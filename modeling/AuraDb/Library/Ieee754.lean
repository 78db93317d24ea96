import Mathlib.Algebra.Order.Ring.Nat
import Mathlib.Data.Nat.Log

/-! Binary floating-point values as bit patterns, with the comparisons and conversions whose result IEEE 754
fixes; a number that was widened to double precision comes back as it was. Arithmetic is not defined here. -/
namespace AuraDb.Library.Ieee754

structure F64 where
  bits : BitVec 64
  deriving DecidableEq, Repr

structure F32 where
  bits : BitVec 32
  deriving DecidableEq, Repr

/-- A number divided by a power of two, rounded to nearest, ties to even. -/
def roundShift (n shift : Nat) : Nat :=
  let kept := n / 2^shift
  let lost := n % 2^shift
  let half := 2^(shift - 1)
  if half < lost ∨ (lost = half ∧ kept % 2 = 1) then kept + 1 else kept

theorem roundShift_exact (n shift : Nat) : roundShift (n*2^shift) shift = n := by
  have half : 0 < 2^(shift-1) := Nat.two_pow_pos _
  have none : ¬ (2^(shift-1) < 0 ∨ 0 = 2^(shift-1) ∧ n % 2 = 1) := by omega
  simp only [roundShift,Nat.mul_mod_left,Nat.mul_div_cancel n (Nat.two_pow_pos shift),if_neg none]

theorem roundShift_bounds (n shift : Nat) : n / 2^shift ≤ roundShift n shift ∧ roundShift n shift ≤ n / 2^shift + 1 := by
  unfold roundShift
  dsimp only
  split <;> omega

theorem roundShift_mono {n m : Nat} (shift : Nat) (le : n ≤ m) : roundShift n shift ≤ roundShift m shift := by
  obtain ⟨low,high⟩ := roundShift_bounds n shift
  obtain ⟨low',-⟩ := roundShift_bounds m shift
  rcases (Nat.div_le_div_right le : n / 2^shift ≤ m / 2^shift).lt_or_eq with less | same
  · omega
  · -- with the same part kept, the rest that is rounded up has grown
    have parts := Nat.div_add_mod n (2^shift)
    have parts' := Nat.div_add_mod m (2^shift)
    rw [← same] at parts'
    unfold roundShift
    dsimp only
    split <;> split <;> omega

namespace F64

def magnitude (f : F64) : Nat := f.bits.toNat % 2^63

def negative (f : F64) : Bool := f.bits.msb

def isNaN (f : F64) : Bool := decide (0x7ff0000000000000 < f.magnitude)

def isFinite (f : F64) : Bool := decide (f.magnitude < 0x7ff0000000000000)

/-- The position of a value on the number line, with both zeros at `0`: the encoding of the magnitude is
monotone. -/
def position (f : F64) : Int := if f.negative then -(f.magnitude : Int) else f.magnitude

def eq (a b : F64) : Bool := !a.isNaN && !b.isNaN && decide (a.position = b.position)

def partialCmp (a b : F64) : Option Ordering :=
  if a.isNaN || b.isNaN then none else some (compare a.position b.position)

/-- The magnitude bits of a positive integer, rounded to nearest, ties to even; a carry moves into the exponent
by itself. -/
def roundNat (n : Nat) : Nat :=
  if n = 0 then 0 else
    let e := Nat.log2 n
    let significand :=
      if e ≤ 52 then n <<< (52 - e) else roundShift n (e - 52)
    (e + 1023) * 2^52 + (significand - 2^52)

def ofInt (i : Int) : F64 :=
  ⟨BitVec.ofNat 64 ((if i < 0 then 2^63 else 0) + roundNat i.natAbs)⟩

section
variable {n : Nat} (pos : n ≠ 0)
include pos

theorem roundNat_bounds : (n.log2+1023)*2^52 ≤ roundNat n ∧ roundNat n ≤ (n.log2+1024)*2^52 := by
  obtain ⟨low,high⟩ : 2^n.log2 ≤ n ∧ n < 2^(n.log2+1) := ⟨Nat.log2_self_le pos,Nat.lt_log2_self⟩
  have encoded {significand : Nat} (above : 2^52 ≤ significand) (below : significand ≤ 2^53) :
      (n.log2+1023)*2^52 ≤ (n.log2+1023)*2^52+(significand-2^52) ∧
        (n.log2+1023)*2^52+(significand-2^52) ≤ (n.log2+1024)*2^52 := by
    omega
  simp only [roundNat,if_neg pos]
  refine encoded ?_ ?_
  · split
    · rename_i fits
      rw [Nat.shiftLeft_eq]
      calc 2^52 = 2^n.log2*2^(52-n.log2) := by rw [← Nat.pow_add,Nat.add_sub_cancel' fits]
        _ ≤ n*2^(52-n.log2) := Nat.mul_le_mul_right _ low
    · have kept : 2^52 ≤ n / 2^(n.log2-52) := by
        rw [Nat.le_div_iff_mul_le (Nat.two_pow_pos _),← Nat.pow_add]
        rwa [Nat.add_sub_cancel' (by omega)]
      exact kept.trans (roundShift_bounds _ _).1
  · split
    · rw [Nat.shiftLeft_eq]
      calc n*2^(52-n.log2) ≤ 2^(n.log2+1)*2^(52-n.log2) := Nat.mul_le_mul_right _ high.le
        _ = 2^53 := by rw [← Nat.pow_add]; congr 1; omega
    · have kept : n / 2^(n.log2-52) < 2^53 := by
        rw [Nat.div_lt_iff_lt_mul (Nat.two_pow_pos _),← Nat.pow_add]
        rwa [show 53+(n.log2-52) = n.log2+1 by omega]
      exact (roundShift_bounds _ _).2.trans kept

theorem roundNat_pos : 0 < roundNat n := by
  have reached := (roundNat_bounds pos).1
  omega

end

theorem roundNat_mono {n m : Nat} (le : n ≤ m) : roundNat n ≤ roundNat m := by
  by_cases pos : n = 0
  · subst pos
    exact Nat.zero_le _
  · have pos' : m ≠ 0 := by omega
    have grows : n.log2 ≤ m.log2 := (Nat.le_log2 pos').mpr ((Nat.log2_self_le pos).trans le)
    rcases grows.lt_or_eq with above | same
    · have below := (roundNat_bounds pos).2
      have reached := (roundNat_bounds pos').1
      omega
    · simp only [roundNat,if_neg pos,if_neg pos',same]
      refine Nat.add_le_add_left (Nat.sub_le_sub_right ?_ _) _
      split
      · rw [Nat.shiftLeft_eq,Nat.shiftLeft_eq]
        exact Nat.mul_le_mul_right _ le
      · exact roundShift_mono _ le

theorem roundNat_lt_pow {n : Nat} (bounded : n ≤ 2^63) : roundNat n < 0x7ff0000000000000 := by
  by_cases pos : n = 0
  · subst pos
    decide
  · have below := (roundNat_bounds pos).2
    have exponent : n.log2 ≤ 63 := by
      have := (Nat.log2_lt pos).mpr (show n < 2^64 by omega)
      omega
    omega

section
variable {i : Int} (bounded : i.natAbs ≤ 2^63)
include bounded

theorem magnitude_ofInt : (ofInt i).magnitude = roundNat i.natAbs := by
  have small := roundNat_lt_pow bounded
  simp only [magnitude,ofInt,BitVec.toNat_ofNat]
  split <;> omega

theorem negative_ofInt : (ofInt i).negative = decide (i < 0) := by
  have small := roundNat_lt_pow bounded
  simp only [negative,ofInt,BitVec.msb_eq_decide,BitVec.toNat_ofNat]
  apply decide_eq_decide.mpr
  split <;> omega

theorem isNaN_ofInt : (ofInt i).isNaN = false := by
  have small := roundNat_lt_pow bounded
  simp only [isNaN,magnitude_ofInt bounded,decide_eq_false_iff_not]
  omega

theorem position_ofInt : (ofInt i).position = if i < 0 then -(roundNat i.natAbs : Int) else roundNat i.natAbs := by
  simp only [position,negative_ofInt bounded,magnitude_ofInt bounded,decide_eq_true_eq]

variable {j : Int} (bounded' : j.natAbs ≤ 2^63)
include bounded'

theorem position_ofInt_mono (le : i ≤ j) : (ofInt i).position ≤ (ofInt j).position := by
  rw [position_ofInt bounded,position_ofInt bounded']
  split
  · split
    · have larger := @roundNat_mono j.natAbs i.natAbs (by omega)
      omega
    · omega
  · split
    · omega
    · have larger := @roundNat_mono i.natAbs j.natAbs (by omega)
      omega

theorem position_ofInt_inj : (ofInt i).position = (ofInt j).position ↔ ofInt i = ofInt j := by
  refine ⟨?_,congrArg _⟩
  rw [position_ofInt bounded,position_ofInt bounded']
  intro same
  -- both signs give a position other than zero
  have above := @roundNat_pos i.natAbs
  have above' := @roundNat_pos j.natAbs
  have signs : (i < 0 ↔ j < 0) ∧ roundNat i.natAbs = roundNat j.natAbs := by split at same <;> split at same <;> omega
  simp only [ofInt,signs]

end

end F64

namespace F32

def magnitude (f : F32) : Nat := f.bits.toNat % 2^31

def negative (f : F32) : Bool := f.bits.msb

def isNaN (f : F32) : Bool := decide (0x7f800000 < f.magnitude)

def position (f : F32) : Int := if f.negative then -(f.magnitude : Int) else f.magnitude

def eq (a b : F32) : Bool := !a.isNaN && !b.isNaN && decide (a.position = b.position)

def partialCmp (a b : F32) : Option Ordering :=
  if a.isNaN || b.isNaN then none else some (compare a.position b.position)

def neg (f : F32) : F32 := ⟨f.bits ^^^ 0x80000000#32⟩

def abs (f : F32) : F32 := ⟨f.bits &&& 0x7fffffff#32⟩

def isFinite (f : F32) : Bool := decide (f.magnitude < 0x7f800000)

def lt (a b : F32) : Bool := a.partialCmp b == some .lt

/-- The magnitude bits of the double with the value of a single of these magnitude bits. -/
def widened (magnitude : Nat) : Nat :=
  let exponent := magnitude / 2^23
  let fraction := magnitude % 2^23
  if exponent = 255 then 0x7ff0000000000000 + fraction * 2^29
  else if exponent = 0 then
    if fraction = 0 then 0 else
      let e := Nat.log2 fraction
      (e + 874) * 2^52 + (fraction - 2^e) * 2^(52 - e)
  else (exponent + 896) * 2^52 + fraction * 2^29

def toF64 (f : F32) : F64 :=
  ⟨BitVec.ofNat 64 ((if f.negative then 2^63 else 0) + widened f.magnitude)⟩

end F32

example : F64.ofInt 1 = ⟨0x3ff0000000000000#64⟩ := by decide
example : F64.ofInt (-3) = ⟨0xc008000000000000#64⟩ := by decide
example : F64.ofInt (2^53 + 1) = F64.ofInt (2^53) := by decide
example : F32.toF64 ⟨0x3f800000#32⟩ = F64.ofInt 1 := by decide

theorem F64.isFinite_ofInt {i : Int} (bounded : i.natAbs < 2^64) : (ofInt i).isFinite = true := by
  have small : roundNat i.natAbs < 0x7ff0000000000000 := by
    by_cases zero : i.natAbs = 0
    · rw [zero]
      decide
    · have above := (roundNat_bounds zero).2
      have exponent := (Nat.log2_lt zero).mpr bounded
      omega
  refine decide_eq_true ?_
  simp only [magnitude,ofInt,BitVec.toNat_ofNat]
  split <;> omega

/-- Two doubles that compare equal are the same unless they are the two zeros. -/
theorem F64.eq_of_eq {a b : F64} (equal : a.eq b = true) (signed : a.bits ≠ 0x8000000000000000)
    (signed' : b.bits ≠ 0x8000000000000000) : a = b := by
  have position : a.position = b.position := by simp_all [eq]
  obtain ⟨x⟩ := a
  obtain ⟨y⟩ := b
  simp only [F64.position,negative,magnitude,BitVec.msb_eq_decide,decide_eq_true_eq] at position
  simp only [ne_eq,← BitVec.toNat_inj] at signed signed'
  simp only [mk.injEq,← BitVec.toNat_inj]
  simp at signed signed'
  split at position <;> split at position <;> omega

namespace F32

theorem eq_of_eq {a b : F32} (equal : a.eq b = true) (signed : a.bits ≠ 0x80000000)
    (signed' : b.bits ≠ 0x80000000) : a = b := by
  have position : a.position = b.position := by simp_all [eq]
  obtain ⟨x⟩ := a
  obtain ⟨y⟩ := b
  simp only [F32.position,negative,magnitude,BitVec.msb_eq_decide,decide_eq_true_eq] at position
  simp only [ne_eq,← BitVec.toNat_inj] at signed signed'
  simp only [mk.injEq,← BitVec.toNat_inj]
  simp at signed signed'
  split at position <;> split at position <;> omega

def infinity : Nat := 0x7f800000

/-- The magnitude bits of the single nearest to a double of these magnitude bits; the encoding goes on below the
smallest exponent in the same steps. -/
def narrowed (magnitude : Nat) : Nat :=
  let exponent := magnitude / 2^52
  let fraction := magnitude % 2^52
  if exponent = 2047 then (if fraction = 0 then infinity else 0x7fc00000)
  else if 897 ≤ exponent then min infinity ((exponent - 897)*2^23 + roundShift (2^52 + fraction) 29)
  else if exponent < 873 then 0
  else roundShift (2^52 + fraction) (926 - exponent)

def ofF64 (f : F64) : F32 := ⟨BitVec.ofNat 32 ((if f.negative then 2^31 else 0) + narrowed f.magnitude)⟩

theorem widened_subnormal {fraction : Nat} (positive : fraction ≠ 0) (small : fraction < 2^23) :
    widened fraction = (fraction.log2 + 874)*2^52 + (fraction - 2^fraction.log2)*2^(52 - fraction.log2) ∧
      fraction.log2 ≤ 22 ∧ (fraction - 2^fraction.log2)*2^(52 - fraction.log2) < 2^52 ∧
      2^52 + (fraction - 2^fraction.log2)*2^(52 - fraction.log2) = fraction*2^(52 - fraction.log2) := by
  have low := Nat.log2_self_le positive
  have high : fraction < 2^(fraction.log2+1) := Nat.lt_log2_self
  have width : fraction.log2 ≤ 22 := by
    have := (Nat.log2_lt positive).mpr small
    omega
  have whole : 2^fraction.log2*2^(52 - fraction.log2) = 2^52 := by rw [← Nat.pow_add,Nat.add_sub_cancel' (by omega)]
  have parts : fraction*2^(52 - fraction.log2) =
      2^fraction.log2*2^(52 - fraction.log2) + (fraction - 2^fraction.log2)*2^(52 - fraction.log2) := by
    rw [← Nat.add_mul,Nat.add_sub_cancel' low]
  refine ⟨?_,width,?_,by omega⟩
  · simp only [widened,Nat.div_eq_of_lt small,Nat.mod_eq_of_lt small,if_neg positive]
    rfl
  · calc (fraction - 2^fraction.log2)*2^(52 - fraction.log2) < 2^fraction.log2*2^(52 - fraction.log2) :=
          Nat.mul_lt_mul_of_pos_right (by rw [pow_succ] at high; omega) (Nat.two_pow_pos _)
      _ = 2^52 := whole

theorem widened_lt {magnitude : Nat} (finite : magnitude < infinity) : widened magnitude < 0x7ff0000000000000 := by
  rw [infinity] at finite
  by_cases small : magnitude < 2^23
  · by_cases zero : magnitude = 0
    · subst zero
      decide
    · obtain ⟨same,width,below,_⟩ := widened_subnormal zero small
      omega
  · simp only [widened]
    rw [if_neg (by omega),if_neg (by omega)]
    omega

theorem narrowed_widened {magnitude : Nat} (finite : magnitude < infinity) : narrowed (widened magnitude) = magnitude := by
  rw [infinity] at finite
  by_cases small : magnitude < 2^23
  · by_cases zero : magnitude = 0
    · subst zero
      decide
    · obtain ⟨same,width,below,whole⟩ := widened_subnormal zero small
      have exponent : widened magnitude / 2^52 = magnitude.log2 + 874 := by omega
      have fraction : widened magnitude % 2^52 = (magnitude - 2^magnitude.log2)*2^(52 - magnitude.log2) := by omega
      have shift : 926 - (magnitude.log2 + 874) = 52 - magnitude.log2 := by omega
      simp only [narrowed,exponent,fraction]
      rw [if_neg (by omega),if_neg (by omega),if_neg (by omega),whole,shift,roundShift_exact]
  · have normal : widened magnitude = (magnitude/2^23 + 896)*2^52 + magnitude % 2^23 * 2^29 := by
      simp only [widened]
      rw [if_neg (by omega),if_neg (by omega)]
    have exponent : widened magnitude / 2^52 = magnitude/2^23 + 896 := by omega
    have fraction : widened magnitude % 2^52 = magnitude % 2^23 * 2^29 := by omega
    have whole : 2^52 + magnitude % 2^23 * 2^29 = (2^23 + magnitude % 2^23)*2^29 := by omega
    simp only [narrowed,exponent,fraction]
    rw [if_neg (by omega),if_pos (by omega),whole,roundShift_exact,infinity]
    omega

section
variable {f : F32} (finite : f.isFinite = true)
include finite

theorem magnitude_toF64 : f.toF64.magnitude = widened f.magnitude := by
  have small := widened_lt (of_decide_eq_true finite : f.magnitude < infinity)
  simp only [F64.magnitude,toF64,BitVec.toNat_ofNat]
  split <;> omega

theorem negative_toF64 : f.toF64.negative = f.negative := by
  have small := widened_lt (of_decide_eq_true finite : f.magnitude < infinity)
  rw [F64.negative,toF64,BitVec.msb_eq_decide,BitVec.toNat_ofNat]
  cases f.negative with
  | true =>
    rw [decide_eq_true_iff]
    simp only [if_true]
    omega
  | false =>
    rw [decide_eq_false_iff_not]
    simp only [Bool.false_eq_true,if_false]
    omega

theorem ofF64_toF64 : ofF64 f.toF64 = f := by
  obtain ⟨bits⟩ := f
  rw [ofF64,magnitude_toF64 finite,negative_toF64 finite,
    narrowed_widened (of_decide_eq_true finite : F32.magnitude ⟨bits⟩ < infinity)]
  congr 1
  apply BitVec.eq_of_toNat_eq
  simp only [BitVec.toNat_ofNat,magnitude,negative,BitVec.msb_eq_decide,decide_eq_true_eq]
  split <;> omega

end

theorem isFinite_toF64 (f : F32) : f.toF64.isFinite = f.isFinite := by
  cases finite : f.isFinite with
  | true =>
    rw [F64.isFinite,magnitude_toF64 finite]
    exact decide_eq_true (widened_lt (of_decide_eq_true finite))
  | false =>
    have wide : ¬ f.magnitude < infinity := of_decide_eq_false finite
    have bounded : f.magnitude < 2^31 := Nat.mod_lt _ (by decide)
    rw [infinity] at wide
    simp only [F64.isFinite,F64.magnitude,toF64,BitVec.toNat_ofNat,widened,decide_eq_false_iff_not]
    rw [if_pos (show f.magnitude / 2^23 = 255 by omega)]
    split <;> omega

end F32

example : F32.ofF64 ⟨0x48078287f49c4a1d#64⟩ = ⟨0x7f800000#32⟩ := by decide
example : F32.ofF64 (F64.ofInt (2^24 + 1)) = F32.ofF64 (F64.ofInt (2^24)) := by decide

end AuraDb.Library.Ieee754
