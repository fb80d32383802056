import ApiContract.Endpoint.Declaration

/-!
A client module: one function for each endpoint, in order. Every function and parameter must be a
name that can be bound, that is bound once, and that hides nothing the functions call.
-/

namespace ApiContract

inductive ClientError where
  | invalidName (name : String)
  | invalidParam (endpoint param : String)
  | duplicateName (name : String)
  | template (endpoint : String) (source : TemplateError)
  deriving DecidableEq

def ClientError.message : ClientError → String
  | .invalidName name => "endpoint name " ++ Text.quoted name ++ " is not a valid identifier"
  | .invalidParam endpoint param =>
    "endpoint " ++ endpoint ++ ": " ++ Text.quoted param ++ " cannot be used as an argument name"
  | .duplicateName name => "duplicate endpoint name " ++ Text.quoted name
  | .template endpoint source => "endpoint " ++ endpoint ++ ": " ++ source.message

namespace Client

def header : String :=
  "// Generated by frapi. Do not edit by hand.\n"

/-- Globals that the generated functions call, so no binding may shadow them. -/
def calledGlobals : List String :=
  ["fetch", "JSON", "URLSearchParams"]

def isBindable (name : String) : Bool :=
  Identifier.isBinding name && !calledGlobals.contains name

def firstUnbindable? (bound : List String) : List String → Option String
  | [] => none
  | name :: rest =>
    if isBindable name && !bound.contains name then firstUnbindable? (name :: bound) rest
    else some name

/-- Declares the function of an endpoint; `seen` holds the names of the functions before it. -/
def declare (flavor : Flavor) (seen : List String) (e : Endpoint) : Except ClientError String :=
  if !isBindable e.name then
    .error (.invalidName e.name)
  else if seen.contains e.name then
    .error (.duplicateName e.name)
  else
    match e.argumentNames with
    | .error source => .error (.template e.name source)
    | .ok names =>
      match firstUnbindable? [] names with
      | some param => .error (.invalidParam e.name param)
      | none => (e.declaration flavor).mapError (.template e.name)

/-- The result of a generation and its log, which is kept on failure too. -/
structure Generation where
  log : List LogEvent
  result : Except ClientError String

def declarations (flavor : Flavor) (seen : List String) : List Endpoint → Generation
  | [] => ⟨[], .ok ""⟩
  | e :: rest =>
    match declare flavor seen e with
    | .error err => ⟨[], .error err⟩
    | .ok text =>
      let next := declarations flavor (e.name :: seen) rest
      ⟨e.renderedEvent :: next.log, next.result.map fun following => "\n" ++ text ++ following⟩

def generatedEvent (endpoints : List Endpoint) (flavor : Flavor) : LogEvent :=
  ⟨.debug, "generated client module",
    [("endpoints", toString endpoints.length), ("flavor", flavor.name)]⟩

def generate (endpoints : List Endpoint) (flavor : Flavor) : Generation :=
  let all := declarations flavor [] endpoints
  match all.result with
  | .ok text => ⟨all.log ++ [generatedEvent endpoints flavor], .ok (header ++ text)⟩
  | .error err => ⟨all.log, .error err⟩

end Client

end ApiContract
