import ApiContract.Json.Decode
import ApiContract.Schema.Inspection

namespace ApiContract

namespace Primitive

def toJson (p : Primitive) : Json :=
  .str p.name

def ofJson : Json → Decoded Primitive :=
  Json.toAlternative (all.map name) ofName?

end Primitive

def Literal.ofJson (j : Json) : Decoded Literal :=
  match Literal.ofJson? j with
  | some l => .ok l
  | none => .error (.noMatch "Literal")

namespace Mode

def toJson : Mode → Json
  | .strict => .obj [("strict", .bool true)]
  | .lenient => .obj [("strict", .bool false)]

def ofStrict (strict : Bool) : Mode :=
  if strict then .strict else .lenient

def ofJson : Json → Decoded Mode
  | .obj members =>
    match members.lookup "strict" with
    | some j => j.toBool.map ofStrict
    | none => .ok .strict
  | .arr [] => .ok .strict
  | .arr (j :: rest) => do
    let strict ← j.toBool
    if rest.isEmpty then return ofStrict strict else Json.tooLong (j :: rest)
  | j => j.unexpected "struct ValidateOptions"

end Mode

namespace Schema

def variantNames : List String :=
  ["primitive", "literal", "shape", "array_of", "map_of", "any_of", "all_of", "refined"]

mutual

def toJson : Schema → Json
  | .primitive p => .obj [("primitive", p.toJson)]
  | .literal l => .obj [("literal", l.toJson)]
  | .shape fields => .obj [("shape", .arr (fieldsToJson fields))]
  | .arrayOf items => .obj [("array_of", items.toJson)]
  | .mapOf values => .obj [("map_of", values.toJson)]
  | .anyOf variants => .obj [("any_of", .arr (listToJson variants))]
  | .allOf members => .obj [("all_of", .arr (listToJson members))]
  | .refined base _ => .obj [("refined", .obj [("base", base.toJson)])]
termination_by structural s => s

def fieldToJson : Field → Json
  | ⟨name, optional, schema⟩ =>
    .obj (("name", .str name) ::
      ((if optional then [("optional", .bool true)] else []) ++ [("schema", schema.toJson)]))
termination_by structural f => f

def fieldsToJson : List Field → List Json
  | [] => []
  | f :: rest => fieldToJson f :: fieldsToJson rest
termination_by structural fields => fields

def listToJson : List Schema → List Json
  | [] => []
  | s :: rest => s.toJson :: listToJson rest
termination_by structural schemas => schemas

end

/-- Where a schema stands. Only a payload slot admits a refinement as an array that holds its
base. -/
inductive Form where
  | plain
  | slot
  deriving DecidableEq

structure FieldParts where
  name : Option String := none
  optional : Option Bool := none
  schema : Option Schema := none

def FieldParts.toField (parts : FieldParts) : Decoded Field :=
  match parts.name, parts.schema with
  | none, _ => .error (.missingField "name")
  | some _, none => .error (.missingField "schema")
  | some name, some schema => .ok ⟨name, parts.optional.getD false, schema⟩

mutual

def ofJson (form : Form) : Json → Decoded Schema
  | .obj [(kind, content)] =>
    match kind with
    | "primitive" => (Primitive.ofJson content).map .primitive
    | "literal" => (Literal.ofJson content).map .literal
    | "shape" =>
      match content with
      | .arr items =>
        (fieldsOfJson form items).map fun fields => .shape (Shape.ofList fields).fields
      | j => j.unexpected "a sequence"
    | "array_of" => (ofJson form content).map .arrayOf
    | "map_of" => (ofJson form content).map .mapOf
    | "any_of" =>
      match content with
      | .arr items => (listOfJson form items).map .anyOf
      | j => j.unexpected "a sequence"
    | "all_of" =>
      match content with
      | .arr items => (listOfJson form items).map .allOf
      | j => j.unexpected "a sequence"
    | "refined" =>
      match form, content with
      | _, .obj members => (baseOfMembers form members).map (.refined · none)
      | .slot, .arr [base] => (ofJson form base).map (.refined · none)
      | _, j => j.unexpected "struct variant"
    | kind => .error (.unknownVariant kind variantNames)
  | .obj _ => .error .notSingleKey
  | .str kind =>
    if kind = "refined" then .error (.invalidType "unit variant" "struct variant")
    else if variantNames.contains kind then .error (.invalidType "unit variant" "newtype variant")
    else .error (.unknownVariant kind variantNames)
  | j => j.unexpected "string or map"
termination_by structural j => j

def listOfJson (form : Form) : List Json → Decoded (List Schema)
  | [] => .ok []
  | j :: rest => do
    let s ← ofJson form j
    return s :: (← listOfJson form rest)
termination_by structural items => items

def baseOfMembers (form : Form) : List (String × Json) → Decoded Schema
  | [] => .error (.missingField "base")
  | (key, j) :: rest => if key = "base" then ofJson form j else baseOfMembers form rest
termination_by structural members => members

def fieldOfJson (form : Form) : Json → Decoded Field
  | .obj members => do (← fieldParts form {} members).toField
  | .arr [] => .error (.invalidLength 0 "struct Field with 3 elements")
  | .arr [name] => do
    let _ ← name.toStr
    .error (.invalidLength 2 "struct Field with 3 elements")
  | .arr [name, optional] => do
    let _ ← name.toStr
    let _ ← optional.toBool
    .error (.invalidLength 2 "struct Field with 3 elements")
  | .arr (name :: optional :: schema :: rest) => do
    let name' ← name.toStr
    let optional' ← optional.toBool
    let schema' ← ofJson form schema
    if rest.isEmpty then return ⟨name', optional', schema'⟩
    else Json.tooLong (name :: optional :: schema :: rest)
  | j => j.unexpected "struct Field"
termination_by structural j => j

def fieldParts (form : Form) (parts : FieldParts) : List (String × Json) → Decoded FieldParts
  | [] => .ok parts
  | (key, j) :: rest =>
    match key with
    | "name" => do
      let name ← j.toStr
      fieldParts form { parts with name := some name } rest
    | "optional" => do
      let optional ← j.toBool
      fieldParts form { parts with optional := some optional } rest
    | "schema" => do
      let schema ← ofJson form j
      fieldParts form { parts with schema := some schema } rest
    | _ => fieldParts form parts rest
termination_by structural members => members

def fieldsOfJson (form : Form) : List Json → Decoded (List Field)
  | [] => .ok []
  | j :: rest => do
    let f ← fieldOfJson form j
    return f :: (← fieldsOfJson form rest)
termination_by structural items => items

end

end Schema

def Field.toJson (f : Field) : Json :=
  Schema.fieldToJson f

def Field.ofJson (j : Json) : Decoded Field :=
  Schema.fieldOfJson .plain j

def Shape.toJson (shape : Shape) : Json :=
  .arr (Schema.fieldsToJson shape.fields)

def Shape.ofJson (j : Json) : Decoded Shape := do
  return Shape.ofList (← Schema.fieldsOfJson .plain (← j.toItems))

end ApiContract
