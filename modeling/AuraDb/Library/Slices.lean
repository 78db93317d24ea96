import AuraDb.Library.Framing

/-! Reading a buffer the way bounds-checked code does: an index or range outside it and a sum past the machine's
word stop the program. -/
namespace AuraDb.Library.Slices
open Framing

inductive Panic where
  | index (place length : Nat)
  | range (start stop length : Nat)
  | width (expected found : Nat)
  | overflow
  deriving DecidableEq, Repr

abbrev Checked (α : Type) := Except Panic α

/-- The bytes of a slice: no allocation is longer than the largest signed word. -/
structure Buffer where
  bytes : Bytes
  machine : bytes.length < 2^63

def add (a b : Nat) : Checked Nat := if a + b < 2^64 then .ok (a + b) else .error .overflow

def checkedAdd (a b : Nat) : Option Nat := if a + b < 2^64 then some (a + b) else none

def index (buf : Bytes) (i : Nat) : Checked UInt8 :=
  match buf[i]? with
  | some byte => .ok byte
  | none => .error (.index i buf.length)

def slice (buf : Bytes) (start stop : Nat) : Checked Bytes :=
  if start ≤ stop ∧ stop ≤ buf.length then .ok ((buf.drop start).take (stop-start))
  else .error (.range start stop buf.length)

def word (width : Nat) (bytes : Bytes) : Checked Nat :=
  if bytes.length = width then .ok (beNat bytes) else .error (.width width bytes.length)

def wordAt (buf : Bytes) (places : List Nat) : Checked Nat := beNat <$> places.mapM (index buf)

@[simp] theorem ok_bind {α β : Type} (a : α) (f : α → Checked β) : (Except.ok a : Checked α) >>= f = f a := rfl

theorem add_ok {a b : Nat} (fits : a + b < 2^64) : add a b = .ok (a + b) := if_pos fits

theorem index_ok {buf : Bytes} {i : Nat} (inside : i < buf.length) : index buf i = .ok buf[i] := by
  simp [index,List.getElem?_eq_getElem inside]

theorem slice_ok {buf : Bytes} {start stop : Nat} (ordered : start ≤ stop) (inside : stop ≤ buf.length) :
    slice buf start stop = .ok ((buf.drop start).take (stop-start)) := if_pos ⟨ordered,inside⟩

theorem word_slice_ok {buf : Bytes} {start width : Nat} (inside : start + width ≤ buf.length) :
    word width ((buf.drop start).take width) = .ok (beNat ((buf.drop start).take width)) := by
  refine if_pos ?_
  rw [List.length_take,List.length_drop]
  omega

section
variable {buf : Bytes} (start : Nat) (width : Nat) (inside : start + width ≤ buf.length)
include start width inside

theorem mapM_index_range : (List.range' start width).mapM (index buf) = .ok ((buf.drop start).take width) := by
  induction width generalizing start with
  | zero => simp [pure,Except.pure]
  | succ width ih =>
    have head : buf.drop start = buf[start] :: buf.drop (start+1) := List.drop_eq_getElem_cons (by omega)
    rw [List.range'_succ,List.mapM_cons,index_ok (by omega : start < buf.length),ih (start+1) (by omega),head]
    rfl

theorem wordAt_range : wordAt buf (List.range' start width) = .ok (beNat ((buf.drop start).take width)) := by
  rw [wordAt,mapM_index_range start width inside]
  rfl

end

end AuraDb.Library.Slices

/-! Bytes as text, two hexadecimal digits each. Both cases of a letter are read, the lower
one is written. -/
namespace AuraDb.Library.Hex

def hexByte (b : UInt8) : List Char := [(b.toNat/16).digitChar,(b.toNat%16).digitChar]

def hexChars (bytes : List UInt8) : List Char := bytes.flatMap hexByte

def toDigit (c : Char) : Option Nat :=
  if '0' ≤ c ∧ c ≤ '9' then some (c.toNat - 48)
  else if 'a' ≤ c ∧ c ≤ 'f' then some (c.toNat - 87)
  else if 'A' ≤ c ∧ c ≤ 'F' then some (c.toNat - 55)
  else none

def hexBytes : List Char → Option (List UInt8)
  | [] => some []
  | [_] => none
  | hi::lo::rest => do
    let high ← toDigit hi
    let low ← toDigit lo
    let bytes ← hexBytes rest
    return UInt8.ofNat (high*16 + low)::bytes

theorem toDigit_digitChar : ∀ d < 16, toDigit d.digitChar = some d := by decide

theorem hexBytes_hexChars (bytes : List UInt8) : hexBytes (hexChars bytes) = some bytes := by
  induction bytes with
  | nil => rfl
  | cons b rest ih =>
    have bound := b.toNat_lt
    have high := toDigit_digitChar (b.toNat/16) (by omega)
    have low := toDigit_digitChar (b.toNat%16) (by omega)
    have whole : b.toNat/16*16 + b.toNat%16 = b.toNat := by omega
    rw [hexChars] at ih
    simp only [hexChars,List.flatMap_cons,hexByte,List.cons_append,List.nil_append,hexBytes,high,low,ih,
      Option.bind_eq_bind,Option.bind_some,whole,UInt8.ofNat_toNat]
    rfl

end AuraDb.Library.Hex
