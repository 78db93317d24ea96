import AuraDb.Core.Value

/-! Schemas of `auradb-core`: field types, relationships and named indexes, with
the checks made on a definition and on a record. -/
namespace AuraDb
variable {schema : CollectionSchema}

inductive FieldType where
  | uuid | string | int | float | bool | timestamp | document | bytes
  | vector (dim : Nat)
  deriving DecidableEq, Repr

namespace FieldType

def debug : FieldType → String
  | .uuid => "Uuid"
  | .string => "String"
  | .int => "Int"
  | .float => "Float"
  | .bool => "Bool"
  | .timestamp => "Timestamp"
  | .document => "Document"
  | .bytes => "Bytes"
  | .vector dim => "Vector \x7b dim: " ++ toString dim ++ " \x7d"

def validate (type : FieldType) (value : Value) : Result Unit :=
  let mismatch := Except.error (Error.schemaViolation
    ("expected " ++ type.debug ++ ", got value of type " ++ value.typeName))
  match type, value with
  | _, .null => .ok ()
  | .uuid, .text _ => .ok ()
  | .string, .text _ => .ok ()
  | .int, .int _ => .ok ()
  | .float, .float _ => .ok ()
  | .float, .int _ => .ok ()
  | .bool, .bool _ => .ok ()
  | .timestamp, .timestamp _ => .ok ()
  | .timestamp, .int _ => .ok ()
  | .document, .object _ => .ok ()
  | .bytes, .bytes _ => .ok ()
  | .vector dim, .vector v =>
    if v.length = dim then .ok () else .error (.schemaViolation
      ("vector dimension mismatch: expected " ++ toString dim ++ ", got " ++ toString v.length))
  | _, _ => mismatch

end FieldType

inductive OnDelete where
  | restrict | setNull
  deriving DecidableEq, Repr

inductive Cardinality where
  | toOne | toMany
  deriving DecidableEq, Repr

structure Relationship where
  name : String
  target : String
  cardinality : Cardinality
  onDelete : OnDelete
  deriving DecidableEq, Repr

structure FieldDef where
  name : String
  fieldType : FieldType
  primaryKey : Bool
  unique : Bool
  nullable : Bool
  indexed : Bool
  deriving DecidableEq, Repr

inductive IndexKind where
  | documentPath | fullText
  deriving DecidableEq, Repr

structure IndexDef where
  path : String
  kind : IndexKind
  deriving DecidableEq, Repr

structure CollectionSchema where
  name : String
  fields : List FieldDef
  relationships : List Relationship
  indexes : List IndexDef
  deriving DecidableEq, Repr

def checkAll {α : Type} (check : α → Result Unit) : List α → Result Unit
  | [] => .ok ()
  | a::rest => match check a with
    | .ok () => checkAll check rest
    | .error e => .error e

theorem checkAll_ok_iff {α : Type} (check : α → Result Unit) (items : List α) :
    checkAll check items = .ok () ↔ ∀ a ∈ items, check a = .ok () := by
  induction items with
  | nil => simp [checkAll]
  | cons a rest ih =>
    cases first : check a with
    | ok u => simp [checkAll,first,ih]
    | error e => simp [checkAll,first]

namespace CollectionSchema

def documentPathIndexes (schema : CollectionSchema) : List String :=
  (schema.indexes.filter (fun i => i.kind == .documentPath)).map (·.path)

def fullTextIndexes (schema : CollectionSchema) : List String :=
  (schema.indexes.filter (fun i => i.kind == .fullText)).map (·.path)

def primaryKey (schema : CollectionSchema) : Option FieldDef := schema.fields.find? (·.primaryKey)

def field (schema : CollectionSchema) (name : String) : Option FieldDef :=
  schema.fields.find? (fun f => f.name == name)

def relationship (schema : CollectionSchema) (name : String) : Option Relationship :=
  schema.relationships.find? (fun r => r.name == name)

def validateIndex [Host] (schema : CollectionSchema) (index : IndexDef) : Result Unit :=
  if isBlank index.path then .error (.schemaViolation "index path is empty") else
  let parts := segments index.path
  if parts.any (fun s => s == "") then
    .error (.schemaViolation ("index path " ++ index.path ++ " has an empty segment")) else
  let root := parts.headD ""
  match schema.field root with
  | none => .error (.schemaViolation
      ("index path " ++ index.path ++ " references unknown field " ++ root))
  | some field =>
    match index.kind with
    | .documentPath =>
      if 1 < parts.length ∧ field.fieldType ≠ .document then .error (.schemaViolation
        ("document-path index " ++ index.path ++ " requires " ++ root ++ " to be a document field"))
      else .ok ()
    | .fullText =>
      if parts.length ≠ 1 then .error (.schemaViolation
        ("full-text index " ++ index.path ++ " must target a single string field"))
      else if field.fieldType ≠ .string then .error (.schemaViolation
        ("full-text index " ++ index.path ++ " requires " ++ root ++ " to be a string field"))
      else .ok ()

def validateDefinition [Host] (schema : CollectionSchema) : Result Unit :=
  if isBlank schema.name then .error (.schemaViolation "collection name is empty") else
  let pkCount := (schema.fields.filter (·.primaryKey)).length
  if 1 < pkCount then .error (.schemaViolation
    ("collection " ++ schema.name ++ " declares " ++ toString pkCount ++ " primary keys")) else
  match checkAll (fun rel : Relationship =>
      if (schema.field rel.name).isSome then .error (.schemaViolation
        ("relationship " ++ rel.name ++ " collides with a field of the same name"))
      else .ok ()) schema.relationships with
  | .error e => .error e
  | .ok () => checkAll schema.validateIndex schema.indexes

theorem validateDefinition_indexes [Host] (valid : schema.validateDefinition = .ok ()) :
    ∀ index ∈ schema.indexes, schema.validateIndex index = .ok () := by
  simp only [validateDefinition] at valid
  split at valid
  · cases valid
  split at valid
  · cases valid
  · split at valid
    · cases valid
    · exact (checkAll_ok_iff _ _).mp valid

theorem validateIndex_fullText [Host] {index : IndexDef}
    (valid : schema.validateIndex index = .ok ()) (kind : index.kind = .fullText) :
    (segments index.path).length = 1 := by
  unfold validateIndex at valid
  simp only [kind] at valid
  split at valid
  · cases valid
  split at valid
  · cases valid
  split at valid
  · cases valid
  split at valid
  · cases valid
  · rename_i single
    exact not_not.mp single

theorem fullText_undotted [Host] (valid : schema.validateDefinition = .ok ())
    {f : String} (inside : f ∈ schema.fullTextIndexes) : '.' ∉ f.toList := by
  obtain ⟨index,listed,rfl⟩ := List.mem_map.mp inside
  obtain ⟨declared,kind⟩ := List.mem_filter.mp listed
  have single := validateIndex_fullText (validateDefinition_indexes valid index declared) (beq_iff_eq.mp kind)
  rw [segments,List.length_map] at single
  intro dotted
  have undotted := splitChars_length_one _ _ single '.' dotted
  simp at undotted

def validateField (fields : Document) (d : FieldDef) : Result Unit :=
  let absent : Result Unit :=
    if !d.nullable then .error (.schemaViolation ("field " ++ d.name ++ " is required"))
    else if d.primaryKey then .error (.schemaViolation ("primary key " ++ d.name ++ " must be present"))
    else .ok ()
  match fields.get d.name with
  | none => absent
  | some .null => absent
  | some value => d.fieldType.validate value

def validateRelationship (fields : Document) (rel : Relationship) : Result Unit :=
  match fields.get rel.name with
  | none => .ok ()
  | some value =>
    match rel.cardinality, value with
    | _, .null => .ok ()
    | .toOne, .text _ => .ok ()
    | .toMany, .array items => checkAll (fun item =>
        match item with
        | .text _ => .ok ()
        | _ => .error (.schemaViolation
            ("relationship " ++ rel.name ++ " targets must be record-id strings"))) items
    | _, _ => .error (.schemaViolation
        ("relationship " ++ rel.name ++ " has wrong shape for its cardinality"))

def validateRecord (schema : CollectionSchema) (fields : Document) : Result Unit :=
  match checkAll (validateField fields) schema.fields with
  | .error e => .error e
  | .ok () => checkAll (validateRelationship fields) schema.relationships

def isUniqueField (schema : CollectionSchema) (name : String) : Bool :=
  schema.fields.any (fun f => f.name == name && (f.primaryKey || f.unique))

end CollectionSchema

/-- The id a written record gets: derived from its primary key, or the counter value `fallback`. -/
def recordIdFor [Host] (schema : CollectionSchema) (fields : Document) (fallback : Nat) : Result RecordId :=
  match schema.primaryKey with
  | none => .ok fallback
  | some pk =>
    match fields.get pk.name with
    | none => .error (.schemaViolation ("primary key " ++ pk.name ++ " is required"))
    | some value =>
      if value.isNull then .error (.schemaViolation ("primary key " ++ pk.name ++ " must not be null"))
      else .ok (deriveId schema.name value)

theorem recordIdFor_clock [Host] (keyed : schema.primaryKey.isSome) (fields : Document)
    (n : Nat) : recordIdFor schema fields n = recordIdFor schema fields 0 := by
  obtain ⟨pk,isKey⟩ := Option.isSome_iff_exists.mp keyed
  simp only [recordIdFor,isKey]

theorem recordIdFor_of_valid [Host] {fields : Document} (valid : schema.validateRecord fields = .ok ()) (n : Nat) :
    ∃ id, recordIdFor schema fields n = .ok id := by
  cases isKey : schema.primaryKey with
  | none => exact ⟨n,by rw [recordIdFor,isKey]⟩
  | some pk =>
    have checked : CollectionSchema.validateField fields pk = .ok () := by
      unfold CollectionSchema.validateRecord at valid
      split at valid
      · cases valid
      · rename_i each
        exact (checkAll_ok_iff _ _).mp each pk (List.mem_of_find?_eq_some isKey)
    have primary : pk.primaryKey = true := List.find?_some isKey
    -- a primary key is required, nullable or not
    have filled : ∃ v, fields.get pk.name = some v ∧ v.isNull = false := by
      unfold CollectionSchema.validateField at checked
      cases nullable : pk.nullable with
      | _ =>
        simp only [primary,nullable] at checked
        split at checked
        · cases checked
        · cases checked
        · rename_i v present value
          exact ⟨v,value,by cases v <;> first | rfl | exact absurd rfl present⟩
    obtain ⟨v,value,filled⟩ := filled
    exact ⟨_,by simp only [recordIdFor,isKey,value,filled]; rfl⟩

end AuraDb
