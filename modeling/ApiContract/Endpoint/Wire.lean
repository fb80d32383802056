import ApiContract.Endpoint.Basic
import ApiContract.Schema.Wire

namespace ApiContract

def Method.toJson (m : Method) : Json :=
  .str m.name

def Method.ofJson : Json → Decoded Method :=
  Json.toAlternative (all.map name) ofName?

def Flavor.toJson (f : Flavor) : Json :=
  .str f.name

def Flavor.ofJson : Json → Decoded Flavor :=
  Json.toAlternative (all.map name) ofName?

namespace Payload

def toJson : Payload → Json
  | .absent => .bool false
  | .untyped => .bool true
  | .typed s => s.toJson

/-- Decodes a payload slot: a flag or a schema, where null leaves the slot out. The error of a
schema that cannot be read is dropped. -/
def ofJson : Json → Decoded (Option Payload)
  | .null => .ok none
  | .bool true => .ok (some .untyped)
  | .bool false => .ok (some .absent)
  | j =>
    match Schema.ofJson .slot j with
    | .ok s => .ok (some (.typed s))
    | .error _ => .error (.noMatch "PayloadRepr")

end Payload

namespace Endpoint

def fieldNames : List String :=
  ["name", "method", "path", "body", "query", "response"]

def toJson (e : Endpoint) : Json :=
  .obj [("name", .str e.name), ("method", e.method.toJson), ("path", .str e.path),
    ("body", e.body.toJson), ("query", e.query.toJson), ("response", e.response.toJson)]

structure Parts where
  name : Option String := none
  method : Option Method := none
  path : Option String := none
  body : Option Payload := none
  query : Option Payload := none
  response : Option Payload := none

def Parts.toEndpoint (p : Parts) : Decoded Endpoint :=
  match p.name, p.method, p.path with
  | none, _, _ => .error (.missingField "name")
  | some _, none, _ => .error (.missingField "method")
  | some _, some _, none => .error (.missingField "path")
  | some name, some method, some path =>
    .ok ⟨name, method, path, p.body.getD (.defaultBody method), p.query.getD .absent,
      p.response.getD .absent⟩

def Parts.add (p : Parts) (key : String) (j : Json) : Decoded Parts :=
  match key with
  | "name" => do return { p with name := some (← j.toStr) }
  | "method" => do return { p with method := some (← Method.ofJson j) }
  | "path" => do return { p with path := some (← j.toStr) }
  | "body" => do return { p with body := ← Payload.ofJson j }
  | "query" => do return { p with query := ← Payload.ofJson j }
  | "response" => do return { p with response := ← Payload.ofJson j }
  | key => .error (.unknownField key fieldNames)

def Parts.addAll (p : Parts) (members : List (String × Json)) : Decoded Parts :=
  members.foldlM (fun p member => p.add member.1 member.2) p

def ofJson : Json → Decoded Endpoint
  | .obj members => do
    (← Parts.addAll {} members).toEndpoint
  | .arr items => do
    let parts ← Parts.addAll {} (fieldNames.zip items)
    if items.length < 3 then
      .error (.invalidLength items.length "struct EndpointRepr with 6 elements")
    else if items.length > fieldNames.length then
      Json.tooLong items
    else
      parts.toEndpoint
  | j => j.unexpected "struct EndpointRepr"

end Endpoint

def Manifest.ofJson (j : Json) : Decoded (List Endpoint) := do
  (← j.toItems).mapM Endpoint.ofJson

def Manifest.toJson (endpoints : List Endpoint) : Json :=
  .arr (endpoints.map Endpoint.toJson)

end ApiContract
