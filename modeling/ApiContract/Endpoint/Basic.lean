import ApiContract.Method
import ApiContract.Schema.Inspection
import ApiContract.Template

namespace ApiContract

inductive Payload where
  | absent
  | untyped
  | typed (schema : Schema)

namespace Payload

def isDeclared : Payload → Bool
  | .absent => false
  | _ => true

def schema? : Payload → Option Schema
  | .typed s => some s
  | _ => none

def defaultBody (method : Method) : Payload :=
  if method.carriesPayload then .untyped else .absent

end Payload

structure Endpoint where
  name : String
  method : Method
  path : String
  body : Payload := .defaultBody method
  query : Payload := .absent
  response : Payload := .absent

inductive Flavor where
  | untyped
  | typed
  deriving DecidableEq

namespace Flavor

def all : List Flavor :=
  [.untyped, .typed]

def name : Flavor → String
  | .untyped => "untyped"
  | .typed => "typed"

def ofName? (name : String) : Option Flavor :=
  all.find? (·.name == name)

theorem ofName?_name (f : Flavor) : ofName? f.name = some f := by
  cases f <;> decide

def unknownMessage (name : String) : String :=
  "unknown client flavor " ++ Text.quoted name ++ " (expected \"typed\" or \"untyped\")"

end Flavor

end ApiContract
