import AuraDb.Core.Value

/-! Values read from JSON. An object with one reserved key stands for a vector, a timestamp or bytes. A value
that was read, written and read again is the same, as long as no vector holds a number that single precision
cannot. -/
namespace AuraDb
open Library.Ieee754
namespace Json

def asI64 : Json → Option Int
  | .int i => if i < 2^63 then some i else none
  | _ => none

def asU64 : Json → Option Nat
  | .int i => if 0 ≤ i then some i.toNat else none
  | _ => none

def asF64 : Json → Option F64
  | .int i => some (.ofInt i)
  | .float f => some f
  | _ => none

def asByte (j : Json) : Option UInt8 := j.asU64.bind (fun n => if n < 256 then some (UInt8.ofNat n) else none)

mutual
/-- What `serde_json` can hold: an integer is an `i64` or a `u64`, a float is finite. -/
def valid : Json → Bool
  | .int i => decide (-2^63 ≤ i ∧ i < 2^64)
  | .float f => f.isFinite
  | .array items => itemsValid items
  | .object fields => fieldsValid fields
  | _ => true

def itemsValid : List Json → Bool
  | [] => true
  | j::rest => j.valid && itemsValid rest

def fieldsValid : List (String × Json) → Bool
  | [] => true
  | (_,j)::rest => j.valid && fieldsValid rest
end

end Json

def jsonArrayToVector (items : List Json) : Option (List F32) := items.mapM (fun v => v.asF64.map F32.ofF64)

def jsonArrayToBytes (items : List Json) : Option (List UInt8) := items.mapM Json.asByte

namespace Value

def reserved (key : String) : Json → Option Value
  | .array items =>
    if key = "$vector" then (jsonArrayToVector items).map .vector
    else if key = "$bytes" then (jsonArrayToBytes items).map .bytes
    else none
  | .int i => if key = "$timestamp" then (Json.asI64 (.int i)).map .timestamp else none
  | _ => none

/-- The reserved encodings of an object with a single key. -/
def extension : List (String × Json) → Option Value
  | [(key,j)] => reserved key j
  | _ => none

def ofNumber (n : Json) : Value :=
  match n.asI64 with
  | some i => .int i
  | none => .float (n.asF64.getD ⟨0x7ff8000000000000#64⟩)

mutual
def fromJson : Json → Value
  | .null => .null
  | .bool b => .bool b
  | .int i => ofNumber (.int i)
  | .float f => ofNumber (.float f)
  | .string s => .text s
  | .array items => .array (itemsFromJson items)
  | .object fields => (extension fields).getD (.object (fieldsFromJson fields))

def itemsFromJson : List Json → List Value
  | [] => []
  | j::rest => fromJson j::itemsFromJson rest

def fieldsFromJson : List (String × Json) → List (String × Value)
  | [] => []
  | (name,j)::rest => (name,fromJson j)::fieldsFromJson rest
end

end Value

namespace Json

mutual
/-- No vector in the value has a component that became infinite. -/
def narrows : Json → Bool
  | .array items => itemsNarrow items
  | .object fields =>
    match Value.extension fields with
    | some (.vector v) => v.all F32.isFinite
    | some _ => true
    | none => fieldsNarrow fields
  | _ => true

def itemsNarrow : List Json → Bool
  | [] => true
  | j::rest => j.narrows && itemsNarrow rest

def fieldsNarrow : List (String × Json) → Bool
  | [] => true
  | (_,j)::rest => j.narrows && fieldsNarrow rest
end

end Json

namespace Value

mutual
def Stored : Value → Prop
  | .int i => i < 2^63
  | .float f => f.isFinite = true
  | .timestamp ms => ms < 2^63
  | .vector v => ∀ x ∈ v, x.isFinite = true
  | .array items => ItemsStored items
  | .object fields => FieldsStored fields ∧ extension (fieldsToJson fields) = none
  | _ => True

def ItemsStored : List Value → Prop
  | [] => True
  | v::rest => v.Stored ∧ ItemsStored rest

def FieldsStored : List (String × Value) → Prop
  | [] => True
  | (_,v)::rest => v.Stored ∧ FieldsStored rest
end

theorem mapM_map_some {α : Type} (read : Json → Option α) (write : α → Json) (items : List α)
    (back : ∀ x ∈ items, read (write x) = some x) : (items.map write).mapM read = some items := by
  induction items with
  | nil => rfl
  | cons x rest ih =>
    rw [List.map_cons,List.mapM_cons,back x (by simp),ih (fun y inside => back y (by simp [inside]))]
    rfl

theorem jsonArrayToVector_numbers (v : List F32) (finite : ∀ x ∈ v, x.isFinite = true) :
    jsonArrayToVector (v.map (fun x => numberJson x.toF64)) = some v := by
  apply mapM_map_some
  intro x inside
  have number : numberJson x.toF64 = .float x.toF64 := if_pos ((F32.isFinite_toF64 x).trans (finite x inside))
  simp [number,Json.asF64,F32.ofF64_toF64 (finite x inside)]

/-- A component that is not finite is written as `null`, which is no number. -/
theorem jsonArrayToVector_null {v : List F32} {x : F32} (inside : x ∈ v) (wide : x.isFinite = false) :
    jsonArrayToVector (v.map (fun x => numberJson x.toF64)) = none := by
  induction v with
  | nil => cases inside
  | cons y rest ih =>
    rw [jsonArrayToVector,List.map_cons,List.mapM_cons]
    rcases List.mem_cons.mp inside with rfl | later
    · have null : numberJson x.toF64 = .null := by simp [numberJson,F32.isFinite_toF64,wide]
      rw [null]
      rfl
    · rw [jsonArrayToVector] at ih
      simp [ih later]

theorem jsonArrayToBytes_numbers (b : List UInt8) : jsonArrayToBytes (b.map (fun x => .int x.toNat)) = some b := by
  apply mapM_map_some
  intro x _
  simp [Json.asByte,Json.asU64,x.toNat_lt]

theorem extension_cases {fields : List (String × Json)} {v : Value} (found : extension fields = some v) :
    (∃ x, v = .vector x) ∨ (∃ b, v = .bytes b) ∨ ∃ ms, v = .timestamp ms ∧ ms < 2^63 := by
  unfold extension at found
  split at found
  · unfold reserved at found
    split at found
    · split_ifs at found with vector bytes
      · obtain ⟨x,_,rfl⟩ := Option.map_eq_some_iff.mp found
        exact .inl ⟨x,rfl⟩
      · obtain ⟨b,_,rfl⟩ := Option.map_eq_some_iff.mp found
        exact .inr (.inl ⟨b,rfl⟩)
    · split_ifs at found with timestamp
      obtain ⟨ms,read,rfl⟩ := Option.map_eq_some_iff.mp found
      simp only [Json.asI64] at read
      split_ifs at read with small
      cases read
      exact .inr (.inr ⟨_,rfl,small⟩)
    · exact nomatch found
  · exact nomatch found

theorem fromJson_int (i : Int) : fromJson (.int i) = if i < 2^63 then .int i else .float (.ofInt i) := by
  simp only [fromJson,ofNumber,Json.asI64]
  split <;> rename_i small
  · split at small <;> simp_all
  · split at small <;> simp_all [Json.asF64]

mutual
theorem fromJson_toJson (v : Value) : fromJson v.toJson = v ↔ v.Stored := by
  cases v with
  | null | bool b | text s => simp [toJson,fromJson,Stored]
  | int i =>
    rw [toJson,fromJson_int,Stored]
    split <;> simp_all
  | float f => cases finite : f.isFinite <;> simp [toJson,numberJson,finite,fromJson,ofNumber,Json.asI64,Json.asF64,Stored]
  | bytes b => simp [toJson,fromJson,extension,reserved,jsonArrayToBytes_numbers,Stored]
  | timestamp ms =>
    simp only [toJson,fromJson,extension,reserved,Json.asI64,Stored,if_true]
    split <;> simp_all
  | vector v =>
    by_cases finite : ∀ x ∈ v, x.isFinite = true
    · simpa [toJson,fromJson,extension,reserved,jsonArrayToVector_numbers v finite,Stored] using finite
    · refine iff_of_false ?_ (by simpa [Stored] using finite)
      simp only [not_forall,Bool.not_eq_true] at finite
      obtain ⟨x,inside,wide⟩ := finite
      simp [toJson,fromJson,extension,reserved,jsonArrayToVector_null inside wide]
  | array items => simp [toJson,fromJson,Stored,itemsFromJson_toJson items]
  | object fields =>
    cases found : extension (fieldsToJson fields) with
    | none => simp [toJson,fromJson,found,Stored,fieldsFromJson_toJson fields]
    | some v =>
      -- an object under a reserved key is read as what the key stands for
      rcases extension_cases found with ⟨x,rfl⟩ | ⟨b,rfl⟩ | ⟨ms,rfl,_⟩ <;> simp [toJson,fromJson,found,Stored]

theorem itemsFromJson_toJson (items : List Value) : itemsFromJson (itemsToJson items) = items ↔ ItemsStored items := by
  cases items with
  | nil => simp [itemsToJson,itemsFromJson,ItemsStored]
  | cons v rest => simp [itemsToJson,itemsFromJson,ItemsStored,fromJson_toJson v,itemsFromJson_toJson rest]

theorem fieldsFromJson_toJson (fields : List (String × Value)) :
    fieldsFromJson (fieldsToJson fields) = fields ↔ FieldsStored fields := by
  cases fields with
  | nil => simp [fieldsToJson,fieldsFromJson,FieldsStored]
  | cons pair rest =>
    obtain ⟨name,v⟩ := pair
    simp [fieldsToJson,fieldsFromJson,FieldsStored,fromJson_toJson v,fieldsFromJson_toJson rest]
end

theorem toJson_fromJson_object (fields : List (String × Json)) :
    ∃ fields', (fromJson (.object fields)).toJson = .object fields' := by
  simp only [fromJson]
  cases found : extension fields with
  | none => exact ⟨_,rfl⟩
  | some v =>
    rcases extension_cases found with ⟨x,rfl⟩ | ⟨b,rfl⟩ | ⟨ms,rfl,_⟩
    · exact ⟨_,rfl⟩
    · exact ⟨_,rfl⟩
    · exact ⟨_,rfl⟩

theorem toJson_fromJson_int (i : Int) : (fromJson (.int i)).toJson = .int i ∨
    (fromJson (.int i)).toJson = numberJson (.ofInt i) := by
  rw [fromJson_int]
  split
  · exact .inl rfl
  · exact .inr rfl

theorem numberJson_cases (f : F64) : numberJson f = .float f ∨ numberJson f = .null := by
  unfold numberJson
  split
  · exact .inl rfl
  · exact .inr rfl

theorem asF64_toJson_fromJson {j : Json} (other : j.asF64 = none) : (fromJson j).toJson.asF64 = none := by
  cases j with
  | int i | float f => exact nomatch other
  | object fields =>
    obtain ⟨fields',same⟩ := toJson_fromJson_object fields
    rw [same]
    rfl
  | _ => rfl

theorem asByte_toJson_fromJson {j : Json} (other : j.asByte = none) : (fromJson j).toJson.asByte = none := by
  cases j with
  | int i =>
    rcases toJson_fromJson_int i with same | same
    · rw [same]
      exact other
    · rw [same]
      rcases numberJson_cases (.ofInt i) with float | null
      · rw [float]
        rfl
      · rw [null]
        rfl
  | float f =>
    simp only [fromJson,ofNumber,Json.asI64,Json.asF64,Option.getD_some,toJson]
    rcases numberJson_cases f with float | null
    · rw [float]
      rfl
    · rw [null]
      rfl
  | object fields =>
    obtain ⟨fields',same⟩ := toJson_fromJson_object fields
    rw [same]
    rfl
  | _ => rfl

theorem mapM_items_none {α : Type} {read : Json → Option α}
    (kept : ∀ j, read j = none → read (fromJson j).toJson = none) (items : List Json)
    (failed : items.mapM read = none) : (itemsToJson (itemsFromJson items)).mapM read = none := by
  induction items with
  | nil => exact nomatch failed
  | cons j rest ih =>
    simp only [itemsFromJson,itemsToJson,List.mapM_cons]
    cases head : read j with
    | none => simp [kept j head]
    | some x =>
      rw [List.mapM_cons,head] at failed
      have tail : rest.mapM read = none := by
        cases held : rest.mapM read with
        | none => rfl
        | some xs => simp [held] at failed
      simp [ih tail]

theorem reserved_numberJson (key : String) (f : F64) : reserved key (numberJson f) = none := by
  rcases numberJson_cases f with float | null
  · rw [float]
    rfl
  · rw [null]
    rfl

theorem reserved_toJson_fromJson {key : String} {j : Json} (plain : reserved key j = none) :
    reserved key (fromJson j).toJson = none := by
  cases j with
  | int i =>
    rcases toJson_fromJson_int i with same | same
    · rw [same]
      exact plain
    · rw [same]
      exact reserved_numberJson key _
  | float f => exact reserved_numberJson key f
  | object fields =>
    obtain ⟨fields',same⟩ := toJson_fromJson_object fields
    rw [same]
    rfl
  | array items =>
    simp only [fromJson,toJson,reserved] at plain ⊢
    split_ifs at plain ⊢ with vector bytes
    · rw [Option.map_eq_none_iff] at plain ⊢
      refine mapM_items_none ?_ items plain
      intro j other
      rw [Option.map_eq_none_iff] at other ⊢
      exact asF64_toJson_fromJson other
    · rw [Option.map_eq_none_iff] at plain ⊢
      exact mapM_items_none (fun j other => asByte_toJson_fromJson other) items plain
    · rfl
  | _ => rfl

theorem extension_fieldsToJson {fields : List (String × Json)} (plain : extension fields = none) :
    extension (fieldsToJson (fieldsFromJson fields)) = none := by
  match fields, plain with
  | [], _ => rfl
  | [(key,j)], plain => exact reserved_toJson_fromJson plain
  | (_,_)::(_,_)::_, _ => rfl

mutual
theorem stored_fromJson (j : Json) (valid : j.valid = true) : (fromJson j).Stored ↔ j.narrows = true := by
  cases j with
  | int i =>
    have bounds : -2^63 ≤ i ∧ i < 2^64 := by simpa [Json.valid] using valid
    rw [fromJson_int]
    split
    · simpa [Stored,Json.narrows]
    · simp [Stored,Json.narrows,F64.isFinite_ofInt (i := i) (by omega)]
  | float f =>
    have finite : f.isFinite = true := by simpa [Json.valid] using valid
    simp [fromJson,ofNumber,Json.asI64,Json.asF64,Stored,Json.narrows,finite]
  | array items =>
    simp only [Json.valid] at valid
    simpa only [fromJson,Stored,Json.narrows] using itemsStored_fromJson items valid
  | object fields =>
    simp only [Json.valid] at valid
    cases found : extension fields with
    | none =>
      simpa [fromJson,found,Stored,Json.narrows,extension_fieldsToJson found] using fieldsStored_fromJson fields valid
    | some v =>
      rcases extension_cases found with ⟨x,rfl⟩ | ⟨b,rfl⟩ | ⟨ms,rfl,small⟩
      · simp [fromJson,found,Stored,Json.narrows]
      · simp [fromJson,found,Stored,Json.narrows]
      · simpa [fromJson,found,Stored,Json.narrows] using small
  | null | bool b | string s => simp [fromJson,Stored,Json.narrows]

theorem itemsStored_fromJson (items : List Json) (valid : Json.itemsValid items = true) :
    ItemsStored (itemsFromJson items) ↔ Json.itemsNarrow items = true := by
  cases items with
  | nil => simp [itemsFromJson,ItemsStored,Json.itemsNarrow]
  | cons j rest =>
    simp only [Json.itemsValid,Bool.and_eq_true] at valid
    simp [itemsFromJson,ItemsStored,Json.itemsNarrow,stored_fromJson j valid.1,itemsStored_fromJson rest valid.2]

theorem fieldsStored_fromJson (fields : List (String × Json)) (valid : Json.fieldsValid fields = true) :
    FieldsStored (fieldsFromJson fields) ↔ Json.fieldsNarrow fields = true := by
  cases fields with
  | nil => simp [fieldsFromJson,FieldsStored,Json.fieldsNarrow]
  | cons pair rest =>
    obtain ⟨name,j⟩ := pair
    simp only [Json.fieldsValid,Bool.and_eq_true] at valid
    simp [fieldsFromJson,FieldsStored,Json.fieldsNarrow,stored_fromJson j valid.1,fieldsStored_fromJson rest valid.2]
end

end Value

end AuraDb
