import AuraDb.Library.Ieee754

/-! The value model of `auradb-core`: values, their JSON form, documents and dotted paths. A `BTreeMap` of
fields is a list of pairs in key order. Numbers keep their exact bit patterns. Nothing is assumed about what comes
from the platform. -/
namespace AuraDb
open Library.Ieee754

/-- The `serde_json::Value` a stored value is written as; `Number::from_f64` refuses a number that is not
finite. -/
inductive Json where
  | null
  | bool (b : Bool)
  | int (i : Int)
  | float (f : F64)
  | string (s : String)
  | array (items : List Json)
  | object (fields : List (String × Json))
  deriving Repr

inductive Value where
  | null
  | bool (b : Bool)
  | int (i : Int)
  | float (f : F64)
  | text (s : String)
  | bytes (b : List UInt8)
  | timestamp (ms : Int)
  | vector (v : List F32)
  | array (items : List Value)
  | object (fields : List (String × Value))
  deriving Repr

namespace Value
mutual
/-- The identity of two values, where `eq` is the comparison of the source. -/
def same : Value → Value → Bool
  | .null, .null => true
  | .bool a, .bool b => decide (a = b)
  | .int a, .int b => decide (a = b)
  | .float a, .float b => decide (a = b)
  | .text a, .text b => decide (a = b)
  | .bytes a, .bytes b => decide (a = b)
  | .timestamp a, .timestamp b => decide (a = b)
  | .vector a, .vector b => decide (a = b)
  | .array a, .array b => sameItems a b
  | .object a, .object b => sameFields a b
  | _, _ => false

def sameItems : List Value → List Value → Bool
  | [], [] => true
  | a::as, b::bs => same a b && sameItems as bs
  | _, _ => false

def sameFields : List (String × Value) → List (String × Value) → Bool
  | [], [] => true
  | (k,a)::as, (l,b)::bs => decide (k = l) && same a b && sameFields as bs
  | _, _ => false
end

mutual
theorem same_iff (a b : Value) : same a b = true ↔ a = b := by
  cases a with
  | array as => cases b <;> simp [same,sameItems_iff as]
  | object as => cases b <;> simp [same,sameFields_iff as]
  | _ => cases b <;> simp [same]

theorem sameItems_iff (as bs : List Value) : sameItems as bs = true ↔ as = bs := by
  cases as with
  | nil => cases bs <;> simp [sameItems]
  | cons a as => cases bs <;> simp [sameItems,same_iff a,sameItems_iff as]

theorem sameFields_iff (as bs : List (String × Value)) : sameFields as bs = true ↔ as = bs := by
  cases as with
  | nil => cases bs <;> simp [sameFields]
  | cons a as =>
    obtain ⟨k,a⟩ := a
    cases bs <;> simp [sameFields,same_iff a,sameFields_iff as,Prod.ext_iff]
end

instance : DecidableEq Value := fun a b => decidable_of_iff _ (same_iff a b)
end Value

abbrev Document := List (String × Value)

namespace Document

def get (d : Document) (name : String) : Option Value := d.lookup name

def containsKey (d : Document) (name : String) : Bool := (d.get name).isSome

def insert : Document → String → Value → Document
  | [], name, value => [(name,value)]
  | (other,held)::rest, name, value =>
    if name = other then (name,value)::rest
    else if name < other then (name,value)::(other,held)::rest
    else (other,held)::insert rest name value

def merge (d set : Document) : Document := set.foldl (fun fields pair => fields.insert pair.1 pair.2) d

theorem get_insert (d : Document) (name other : String) (value : Value) :
    (d.insert name value).get other = if other = name then some value else d.get other := by
  induction d with
  | nil => by_cases same : other = name <;> simp [insert,get,List.lookup_cons,same,beq_eq_false_iff_ne.mpr]
  | cons pair rest ih =>
    obtain ⟨head,held⟩ := pair
    simp only [get] at ih ⊢
    by_cases replaced : name = head
    · subst head
      by_cases same : other = name
      · simp [insert,same]
      · simp [insert,List.lookup_cons,same,beq_eq_false_iff_ne.mpr same]
    · by_cases before : name < head
      · by_cases same : other = name
        · simp [insert,replaced,before,same]
        · simp [insert,replaced,before,List.lookup_cons,same,beq_eq_false_iff_ne.mpr same]
      · simp only [insert,replaced,before,if_false,List.lookup_cons]
        by_cases found : other = head
        · subst found
          simp [Ne.symm replaced]
        · simp only [beq_eq_false_iff_ne.mpr found]
          exact ih

theorem get_merge (d set : Document) (name : String) :
    (d.merge set).get name = d.get name ∨ ∃ v, (name,v) ∈ set ∧ (d.merge set).get name = some v := by
  induction set generalizing d with
  | nil => exact Or.inl rfl
  | cons pair rest ih =>
    obtain ⟨other,value⟩ := pair
    rcases ih (d.insert other value) with same | ⟨v,inside,found⟩
    · rw [get_insert] at same
      split at same
      · rename_i own
        exact Or.inr ⟨value,by simp [own],same⟩
      · exact Or.inl same
    · exact Or.inr ⟨v,by simp [inside],found⟩

end Document

def splitChars (separator : Char → Bool) : List Char → List (List Char)
  | [] => [[]]
  | c::rest =>
    if separator c then []::splitChars separator rest
    else match splitChars separator rest with
      | [] => [[c]]
      | part::parts => (c::part)::parts

def segments (path : String) : List String :=
  (splitChars (fun c => c == '.') path.toList).map String.ofList

namespace Value

def typeName : Value → String
  | .null => "null"
  | .bool _ => "bool"
  | .int _ => "int"
  | .float _ => "float"
  | .text _ => "string"
  | .bytes _ => "bytes"
  | .timestamp _ => "timestamp"
  | .vector _ => "vector"
  | .array _ => "array"
  | .object _ => "document"

def isNull : Value → Bool
  | .null => true
  | _ => false

def asText : Value → Option String
  | .text s => some s
  | _ => none

def getPath : Value → List String → Option Value
  | v, [] => some v
  | .object fields, part::rest =>
    match Document.get fields part with
    | some v => getPath v rest
    | none => none
  | _, _::_ => none

def numberJson (f : F64) : Json := if f.isFinite then .float f else .null

mutual
def toJson : Value → Json
  | .null => .null
  | .bool b => .bool b
  | .int i => .int i
  | .float f => numberJson f
  | .text s => .string s
  | .bytes b => .object [("$bytes",.array (b.map (fun x => .int x.toNat)))]
  | .timestamp ms => .object [("$timestamp",.int ms)]
  | .vector v => .object [("$vector",.array (v.map (fun x => numberJson x.toF64)))]
  | .array items => .array (itemsToJson items)
  | .object fields => .object (fieldsToJson fields)

def itemsToJson : List Value → List Json
  | [] => []
  | v::rest => v.toJson::itemsToJson rest

def fieldsToJson : List (String × Value) → List (String × Json)
  | [] => []
  | (name,v)::rest => (name,v.toJson)::fieldsToJson rest
end

mutual
/-- The derived `==`, which compares floats as numbers: `0.0 == -0.0`, and a NaN
equals nothing. -/
def eq : Value → Value → Bool
  | .null, .null => true
  | .bool a, .bool b => a == b
  | .int a, .int b => a == b
  | .float a, .float b => a.eq b
  | .text a, .text b => a == b
  | .bytes a, .bytes b => a == b
  | .timestamp a, .timestamp b => a == b
  | .vector a, .vector b => a.length == b.length && (a.zip b).all (fun p => p.1.eq p.2)
  | .array a, .array b => itemsEq a b
  | .object a, .object b => fieldsEq a b
  | _, _ => false

def itemsEq : List Value → List Value → Bool
  | [], [] => true
  | a::as, b::bs => a.eq b && itemsEq as bs
  | _, _ => false

def fieldsEq : List (String × Value) → List (String × Value) → Bool
  | [], [] => true
  | (m,a)::as, (n,b)::bs => m == n && a.eq b && fieldsEq as bs
  | _, _ => false
end

mutual
/-- No negative zero in the value. -/
def unsigned : Value → Bool
  | .float f => f.bits != 0x8000000000000000
  | .vector v => v.all (·.bits != 0x80000000)
  | .array items => itemsUnsigned items
  | .object fields => fieldsUnsigned fields
  | _ => true

def itemsUnsigned : List Value → Bool
  | [] => true
  | v::rest => v.unsigned && itemsUnsigned rest

def fieldsUnsigned : List (String × Value) → Bool
  | [] => true
  | (_,v)::rest => v.unsigned && fieldsUnsigned rest
end

private theorem vector_of_eq (v w : List F32) (equal : (Value.vector v).eq (.vector w) = true)
    (plain : (Value.vector v).unsigned = true) (plain' : (Value.vector w).unsigned = true) : v = w := by
  simp only [eq,unsigned,Bool.and_eq_true,beq_iff_eq,List.all_eq_true,bne_iff_ne] at equal plain plain'
  refine List.ext_getElem equal.1 fun i bound bound' => ?_
  have pair := equal.2 (v[i],w[i]) (List.mem_iff_getElem.mpr ⟨i,by simp; omega,by simp⟩)
  exact F32.eq_of_eq pair (plain _ (List.getElem_mem _)) (plain' _ (List.getElem_mem _))

mutual
/-- Values without a negative zero are equal only to themselves. -/
theorem eq_unsigned (v w : Value) (equal : v.eq w = true) (plain : v.unsigned = true) (plain' : w.unsigned = true) :
    v = w := by
  cases v with
  | float f =>
    cases w with
    | float g => exact congrArg _ (F64.eq_of_eq (by simpa [eq] using equal) (by simpa [unsigned] using plain)
        (by simpa [unsigned] using plain'))
    | _ => simp [eq] at equal
  | vector v =>
    cases w with
    | vector w => exact congrArg _ (vector_of_eq v w equal plain plain')
    | _ => simp [eq] at equal
  | array items =>
    cases w with
    | array others =>
      simp only [eq,unsigned] at equal plain plain'
      exact congrArg _ (itemsEq_unsigned items others equal plain plain')
    | _ => simp [eq] at equal
  | object fields =>
    cases w with
    | object others =>
      simp only [eq,unsigned] at equal plain plain'
      exact congrArg _ (fieldsEq_unsigned fields others equal plain plain')
    | _ => simp [eq] at equal
  | _ => cases w <;> simp_all [eq]

theorem itemsEq_unsigned (as bs : List Value) (equal : itemsEq as bs = true) (plain : itemsUnsigned as = true)
    (plain' : itemsUnsigned bs = true) : as = bs := by
  match as, bs with
  | [], [] => rfl
  | a::as, b::bs =>
    simp only [itemsEq,itemsUnsigned,Bool.and_eq_true] at equal plain plain'
    rw [eq_unsigned a b equal.1 plain.1 plain'.1,itemsEq_unsigned as bs equal.2 plain.2 plain'.2]

theorem fieldsEq_unsigned (as bs : List (String × Value)) (equal : fieldsEq as bs = true)
    (plain : fieldsUnsigned as = true) (plain' : fieldsUnsigned bs = true) : as = bs := by
  match as, bs with
  | [], [] => rfl
  | (m,a)::as, (n,b)::bs =>
    simp only [fieldsEq,fieldsUnsigned,Bool.and_eq_true,beq_iff_eq] at equal plain plain'
    rw [equal.1.1,eq_unsigned a b equal.1.2 plain.1 plain'.1,fieldsEq_unsigned as bs equal.2 plain.2 plain'.2]
end

end Value

abbrev RecordId := Nat

abbrev TxnId := Nat

structure Record where
  id : RecordId
  collection : String
  fields : Document
  version : Nat
  createdTxn : TxnId
  deriving DecidableEq, Repr

namespace Record

def get (r : Record) (field : String) : Option Value := r.fields.get field

def getPath (r : Record) (path : String) : Option Value :=
  match segments path with
  | [] => none
  | head::rest => (r.fields.get head).bind (fun v => v.getPath rest)

end Record

inductive Error where
  | invalidRequest (message : String)
  | storage (message : String)
  | corruption (message : String)
  | conflict (message : String)
  | transactionTimeout (message : String)
  | schemaViolation (message : String)
  | uniqueViolation (message : String)
  | notFound (message : String)
  | unsupported (feature : String)
  | io (message : String)
  | internal (message : String)
  | queryTimeout (message : String)
  | notLeader (hint : String)
  | protocol (message : String)
  | unauthenticated (message : String)
  | invalidCredentials
  | limitExceeded (message : String)
  deriving DecidableEq, Repr

abbrev Result (α : Type) := Except Error α

theorem bind_ok {α β : Type} {m : Result α} {f : α → Result β} {b : β} (done : m >>= f = .ok b) :
    ∃ a, m = .ok a ∧ f a = .ok b := by
  cases m with
  | error err => cases done
  | ok a => exact ⟨a,rfl,done⟩

theorem bind_of_ok {α β : Type} {m : Result α} {a : α} (done : m = .ok a) (f : α → Result β) : m >>= f = f a := by
  rw [done]
  rfl

section
variable (separator : Char → Bool) (cs : List Char)
include separator cs

theorem splitChars_none (absent : ∀ c ∈ cs, separator c = false) : splitChars separator cs = [cs] := by
  induction cs with
  | nil => rfl
  | cons c rest ih =>
    have head := absent c (by simp)
    have tail := ih (fun d inside => absent d (by simp [inside]))
    simp [splitChars,head,tail]

theorem splitChars_eq : ∃ part parts, splitChars separator cs = part::parts := by
  cases cs with
  | nil => exact ⟨_,_,rfl⟩
  | cons c rest =>
    rw [splitChars]
    split
    · exact ⟨_,_,rfl⟩
    · split <;> exact ⟨_,_,rfl⟩

theorem splitChars_length_one (single : (splitChars separator cs).length = 1) : ∀ c ∈ cs, separator c = false := by
  induction cs with
  | nil => simp
  | cons c rest ih =>
    obtain ⟨part,parts,same⟩ := splitChars_eq separator rest
    rw [splitChars,same] at single
    cases found : separator c with
    | true => simp [found] at single
    | false =>
      have tail : (splitChars separator rest).length = 1 := by
        rw [same]
        simpa [found] using single
      intro d inside
      rcases List.mem_cons.mp inside with rfl | later
      · exact found
      · exact ih tail d later

end

theorem segments_no_dot (path : String) (absent : '.' ∉ path.toList) : segments path = [path] := by
  have none : ∀ c ∈ path.toList, (c == '.') = false := by
    intro c inside
    simp only [beq_eq_false_iff_ne]
    rintro rfl
    exact absent inside
  simp [segments,splitChars_none _ _ none]

theorem Record.getPath_no_dot (r : Record) (path : String) (absent : '.' ∉ path.toList) :
    r.getPath path = r.fields.get path := by
  simp only [Record.getPath,segments_no_dot path absent]
  cases r.fields.get path <;> rfl

example : segments "metadata.status" = ["metadata","status"] := by decide
example : (Value.object [("a",.int 1)]).eq (.object [("a",.int 1)]) = true := by decide

class Host where
  /-- `serde_json::to_string`. -/
  jsonText : Json → String
  isAlphanumeric : Char → Bool
  isWhitespace : Char → Bool
  toLowercase : String → String
  f64Add : F64 → F64 → F64
  f64Mul : F64 → F64 → F64
  f64Div : F64 → F64 → F64
  /-- `ceil() as usize`. -/
  f64Ceil : F64 → Nat
  f32OfNat : Nat → F32
  f32Add : F32 → F32 → F32

/-- `canonical`, `index_key` and `value_key`: the text of a value's JSON form. -/
def indexKey [Host] (v : Value) : String := Host.jsonText v.toJson

def tokenize [Host] (text : String) : List String :=
  (((splitChars (fun c => !Host.isAlphanumeric c) text.toList).filter (fun part => !part.isEmpty)).map
    String.ofList).map Host.toLowercase

def isBlank [Host] (s : String) : Bool := s.toList.all Host.isWhitespace

def fnvOffset : Nat := 0x6c62272e07bb014262b821756295c58d

def fnvPrime : Nat := 0x0000000001000000000000000000013b

def fnv1a128 (bytes : List UInt8) : Nat :=
  bytes.foldl (fun hash b => ((hash ^^^ b.toNat) * fnvPrime) % 2^128) fnvOffset

/-- The record id of a primary-key value: the hash of the collection name, a NUL
and the value's text. -/
def deriveId [Host] (collection : String) (pk : Value) : RecordId :=
  fnv1a128 ((collection.toList ++ ['\x00'] ++ (indexKey pk).toList).flatMap String.utf8EncodeChar)

example : fnv1a128 [97] = 0xd228cb696f1a8caf78912b704e4a8964 := by decide

def floatText (f : F64) : String :=
  let e := f.magnitude / 2^52
  let whole : Nat := (f.magnitude % 2^52 + 2^52) / 2^(1075 - e)
  let sign := if f.negative then "-" else ""
  if f.magnitude = 0 then sign ++ "0.0"
  else if F64.ofInt whole = ⟨BitVec.ofNat 64 f.magnitude⟩ then sign ++ toString whole ++ ".0"
  else toString f.bits.toNat ++ "e0"

mutual
def plainJson : Json → String
  | .null => "null"
  | .bool b => if b then "true" else "false"
  | .int i => toString i
  | .float f => floatText f
  | .string s => "\"" ++ s ++ "\""
  | .array items => "[" ++ plainItems items ++ "]"
  | .object fields => "\x7b" ++ plainFields fields ++ "\x7d"

def plainItems : List Json → String
  | [] => ""
  | x::rest => plainJson x ++ (if rest.isEmpty then "" else ",") ++ plainItems rest

def plainFields : List (String × Json) → String
  | [] => ""
  | (name,x)::rest =>
    "\"" ++ name ++ "\":" ++ plainJson x ++ (if rest.isEmpty then "" else ",") ++ plainFields rest
end

/-- A host that is right about ASCII text and whole floats, for evaluating the model.
It has no arithmetic on floats. -/
@[reducible] def plainHost : Host where
  jsonText := plainJson
  isAlphanumeric := Char.isAlphanum
  isWhitespace := Char.isWhitespace
  toLowercase s := String.ofList (s.toList.map Char.toLower)
  f64Add a _ := a
  f64Mul a _ := a
  f64Div a _ := a
  f64Ceil _ := 0
  f32OfNat _ := ⟨0⟩
  f32Add a _ := a

example : plainJson (.array [.float (.ofInt 3),.int (-2),.object [("a",.string "x")]]) =
    "[3.0,-2,\x7b\"a\":\"x\"\x7d]" := by decide +kernel

end AuraDb
