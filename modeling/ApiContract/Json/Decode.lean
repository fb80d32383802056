import ApiContract.Json.Text
import ApiContract.Text.Quoted

namespace ApiContract

inductive DecodeError where
  | invalidType (found expected : String)
  | notSingleKey
  | unknownVariant (name : String) (expected : List String)
  | unknownField (name : String) (expected : List String)
  | missingField (name : String)
  | invalidLength (length : Nat) (expected : String)
  | noMatch (type : String)
  deriving DecidableEq

namespace DecodeError

def ticked (name : String) : String :=
  "`" ++ name ++ "`"

def oneOf : List String → String
  | [a, b] => ticked a ++ " or " ++ ticked b
  | names => "one of " ++ ", ".intercalate (names.map ticked)

def message : DecodeError → String
  | .invalidType found expected => "invalid type: " ++ found ++ ", expected " ++ expected
  | .notSingleKey => "invalid value: map, expected map with a single key"
  | .unknownVariant name expected =>
    "unknown variant " ++ ticked name ++ ", expected " ++ oneOf expected
  | .unknownField name expected =>
    "unknown field " ++ ticked name ++ ", expected " ++ oneOf expected
  | .missingField name => "missing field " ++ ticked name
  | .invalidLength length expected =>
    "invalid length " ++ toString length ++ ", expected " ++ expected
  | .noMatch type => "data did not match any variant of untagged enum " ++ type

end DecodeError

abbrev Decoded (α : Type) := Except DecodeError α

namespace Json

def description : Json → String
  | .null => "null"
  | .bool b => "boolean " ++ DecodeError.ticked (if b then "true" else "false")
  | .num (.int n h) => "integer " ++ DecodeError.ticked (Number.text (.int n h))
  | .num (.float x) => "floating point " ++ DecodeError.ticked x.text
  | .str s => "string " ++ Text.quoted s
  | .arr _ => "sequence"
  | .obj _ => "map"

def unexpected (found : Json) (expected : String) : Decoded α :=
  .error (.invalidType found.description expected)

def toStr : Json → Decoded String
  | .str s => .ok s
  | j => j.unexpected "a string"

def toBool : Json → Decoded Bool
  | .bool b => .ok b
  | j => j.unexpected "a boolean"

def toItems : Json → Decoded (List Json)
  | .arr items => .ok items
  | j => j.unexpected "a sequence"

/-- Decodes an enumeration: a name, or an object that maps the name to null. -/
def toAlternative (names : List String) (ofName? : String → Option α) : Json → Decoded α
  | .str name =>
    match ofName? name with
    | some a => .ok a
    | none => .error (.unknownVariant name names)
  | .obj [(name, content)] =>
    match ofName? name, content with
    | none, _ => .error (.unknownVariant name names)
    | some a, .null => .ok a
    | some _, content => content.unexpected "unit"
  | .obj _ => .error .notSingleKey
  | j => j.unexpected "string or map"

def tooLong (items : List Json) : Decoded α :=
  .error (.invalidLength items.length "fewer elements in array")

end Json

end ApiContract
