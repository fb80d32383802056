import ApiContract.Endpoint.Basic
import ApiContract.Log

namespace ApiContract

inductive BoundaryPart where
  | body
  | query
  | response
  deriving DecidableEq

structure BoundaryError where
  part : BoundaryPart
  cause : Violation

namespace BoundaryError

def status (e : BoundaryError) : Nat :=
  match e.part with
  | .body | .query => 400
  | .response => 500

def message (e : BoundaryError) : String :=
  match e.part with
  | .body => "Error while validating request payload. " ++ e.cause.message
  | .query => "Error while validating request query. " ++ e.cause.message
  | .response => "Error while validating response payload. " ++ e.cause.message

def event (e : BoundaryError) (endpoint : Endpoint) : LogEvent :=
  let (subject, part) := match e.part with
    | .body => ("request", "\"body\"")
    | .query => ("request", "\"query\"")
    | .response => ("response", "\"response\"")
  ⟨.debug, subject ++ " rejected",
    [("endpoint", endpoint.name), ("part", part), ("error", e.cause.message)]⟩

end BoundaryError

def Payload.check (payload : Payload) (part : BoundaryPart) (mode : Mode) (value : Json) :
    Except BoundaryError Unit :=
  match payload with
  | .typed s => (s.validate mode value).mapError (⟨part, ·⟩)
  | _ => .ok ()

namespace Endpoint

def checkRequest (e : Endpoint) (mode : Mode) (body query : Json) : Except BoundaryError Unit := do
  e.body.check .body mode body
  e.query.check .query mode query

def checkResponse (e : Endpoint) (mode : Mode) (response : Json) : Except BoundaryError Unit :=
  e.response.check .response mode response

end Endpoint

end ApiContract
