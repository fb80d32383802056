import ApiContract.Endpoint.Basic
import ApiContract.Log

namespace ApiContract

structure Parameter where
  name : String
  type : String
  deriving DecidableEq

def Parameter.text (flavor : Flavor) (p : Parameter) : String :=
  match flavor with
  | .untyped => p.name
  | .typed => p.name ++ ": " ++ p.type

def Payload.typeText (untyped : String) : Payload → Option String
  | .absent => none
  | .untyped => some untyped
  | .typed s => some s.typeText

namespace Endpoint

def template (e : Endpoint) : Except TemplateError (List TemplatePart) :=
  Template.parse e.path

def argumentNames (e : Endpoint) : Except TemplateError (List String) :=
  e.template.map fun parts =>
    Template.parameterNames parts ++ (if e.query.isDeclared then ["query"] else []) ++
      (if e.body.isDeclared then ["body"] else [])

def parameters (e : Endpoint) (parts : List TemplatePart) : List Parameter :=
  (Template.parameterNames parts).map (⟨·, "string"⟩) ++
    ((e.query.typeText "Record<string, string>").map (⟨"query", ·⟩)).toList ++
    ((e.body.typeText "any").map (⟨"body", ·⟩)).toList

def address (e : Endpoint) (parts : List TemplatePart) : String :=
  Template.interpolatedPath parts ++
    if e.query.isDeclared then "?$\x7bnew URLSearchParams(query)\x7d" else ""

def requestInit (e : Endpoint) : String :=
  "\x7b method: '" ++ e.method.wireName ++
    "', headers: \x7b 'Content-Type': 'application/json' \x7d" ++
    (if e.body.isDeclared then ", body: JSON.stringify(body)" else "") ++ " \x7d"

def statement (e : Endpoint) (parts : List TemplatePart) : String :=
  "  return fetch(`" ++ e.address parts ++ "`, " ++ e.requestInit ++ ")" ++
    (if e.response.isDeclared then ".then((response) => response.json())" else "") ++ ";\n"

def returnType (e : Endpoint) (flavor : Flavor) : String :=
  match flavor, e.response.typeText "any" with
  | .typed, some type => ": Promise<" ++ type ++ ">"
  | _, _ => ""

def render (e : Endpoint) (flavor : Flavor) (parts : List TemplatePart) : String :=
  "export async function " ++ e.name ++ "(" ++
    ", ".intercalate ((e.parameters parts).map (·.text flavor)) ++ ")" ++ e.returnType flavor ++
    " \x7b\n" ++ e.statement parts ++ "\x7d\n"

def declaration (e : Endpoint) (flavor : Flavor) : Except TemplateError String :=
  e.template.map (e.render flavor)

def renderedEvent (e : Endpoint) : LogEvent :=
  ⟨.trace, "rendered client declaration", [("endpoint", e.name), ("method", e.method.name)]⟩

end Endpoint

end ApiContract
