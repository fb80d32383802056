import ApiContract.Location
import ApiContract.Schema.Basic

namespace ApiContract

inductive ViolationKind where
  | shapeMismatch
  | structureMismatch
  | missingField
  | unexpectedField
  | unionExhausted
  | customValidationFailed
  | customValidationError
  | schemaAuthoring
  deriving DecidableEq

def ViolationKind.name : ViolationKind → String
  | .shapeMismatch => "shape_mismatch"
  | .structureMismatch => "structure_mismatch"
  | .missingField => "missing_field"
  | .unexpectedField => "unexpected_field"
  | .unionExhausted => "union_exhausted"
  | .customValidationFailed => "custom_validation_failed"
  | .customValidationError => "custom_validation_error"
  | .schemaAuthoring => "schema_authoring"

inductive Reason where
  | notPrimitive (expected : Primitive) (found : Option Json)
  | notLiteral (expected : Literal) (found : Option Json)
  | notArray (found : Option Json)
  | notMap (found : Option Json)
  | notObject (found : Option Json)
  | noVariant (found : Option Json)
  | emptyUnion
  | emptyIntersection
  | scalarMember (type : String)
  | metaKey (key : String)
  | undeclaredKey (key : String)
  | refused (value : Json)
  | stated (message : String)

def foundText : Option Json → String
  | some value => value.text
  | none => "undefined"

def Reason.text : Reason → String
  | .notPrimitive .null found => "Expected to be null but got: " ++ foundText found
  | .notPrimitive p found => "Expected to be a " ++ p.name ++ " but got: " ++ foundText found
  | .notLiteral l found =>
    "Expected " ++ l.kind ++ " " ++ l.toJson.text ++ " but got: " ++ foundText found
  | .notArray found => "Expected to be an array but got: " ++ foundText found
  | .notMap found => "Expected to be an object but got: " ++ foundText found
  | .notObject found => "Expected to be an object: " ++ foundText found
  | .noVariant found => "Expected to be an one of union types but got: " ++ foundText found
  | .emptyUnion => "Expected union to declare at least one variant"
  | .emptyIntersection => "Expected intersection to declare at least one variant"
  | .scalarMember type => "Expected intersection member to be an object type but got: " ++ type
  | .metaKey key => "Fields starting with $ are forbidden: " ++ Json.stringText key
  | .undeclaredKey key => "Unexpected object property: " ++ Json.stringText key
  | .refused value => "Custom validation failed for value: " ++ value.text
  | .stated message => message

structure Violation where
  kind : ViolationKind
  location : Location
  reason : Reason

namespace Violation

def message (v : Violation) : String :=
  if v.location.isEmpty then v.reason.text
  else "Field " ++ v.location.text ++ ". " ++ v.reason.text

/-- Turns a mismatch at an absent field into a missing field. Faults of the schema are kept. -/
def asMissing (v : Violation) : Violation :=
  match v.kind with
  | .shapeMismatch | .structureMismatch | .unionExhausted => { v with kind := .missingField }
  | _ => v

end Violation

end ApiContract
