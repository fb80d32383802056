import ApiContract.Proofs.Client.Generation

namespace ApiContract

open Template

def Payload.argumentTypes (untyped : String) : Payload → List String
  | .absent => []
  | .untyped => [untyped]
  | .typed s => [s.typeText]

namespace Endpoint

def argumentTypes (e : Endpoint) (parts : List TemplatePart) : List String :=
  (parameterNames parts).map (fun _ => "string") ++
    e.query.argumentTypes "Record<string, string>" ++ e.body.argumentTypes "any"

def promise (e : Endpoint) : String :=
  match e.response with
  | .absent => ""
  | .untyped => ": Promise<any>"
  | .typed s => ": Promise<" ++ s.typeText ++ ">"

def functionText (e : Endpoint) (parameters : List String) (returns : String)
    (parts : List TemplatePart) : String :=
  "export async function " ++ e.name ++ "(" ++ ", ".intercalate parameters ++ ")" ++ returns ++
    " \x7b\n" ++ e.statement parts ++ "\x7d\n"

/-- The functions of an endpoint in both flavors, which differ in type annotations only. -/
structure Twins (e : Endpoint) (parts : List TemplatePart) (parameters : List Parameter) :
    Prop where
  template : e.template = .ok parts
  names : e.argumentNames = .ok (parameters.map (·.name))
  types : parameters.map (·.type) = e.argumentTypes parts
  untyped : e.declaration .untyped = .ok (e.functionText (parameters.map (·.name)) "" parts)
  typed : e.declaration .typed = .ok
    (e.functionText (parameters.map fun p => p.name ++ ": " ++ p.type) e.promise parts)
  promised : e.promise ≠ "" ↔ e.response.isDeclared = true

theorem parameters_names (e : Endpoint) (parts : List TemplatePart) :
    (e.parameters parts).map (·.name) =
      parameterNames parts ++ (if e.query.isDeclared then ["query"] else []) ++
        (if e.body.isDeclared then ["body"] else []) := by
  cases hquery : e.query <;> cases hbody : e.body <;>
    simp [parameters, hquery, hbody, Payload.typeText, Payload.isDeclared, Function.comp_def]

theorem parameters_types (e : Endpoint) (parts : List TemplatePart) :
    (e.parameters parts).map (·.type) = e.argumentTypes parts := by
  cases hquery : e.query <;> cases hbody : e.body <;>
    simp [parameters, argumentTypes, hquery, hbody, Payload.typeText, Payload.argumentTypes,
      Function.comp_def]

theorem returnType_typed (e : Endpoint) : e.returnType .typed = e.promise := by
  unfold returnType promise
  cases e.response <;> simp [Payload.typeText]

theorem promise_ne_empty_iff (e : Endpoint) :
    e.promise ≠ "" ↔ e.response.isDeclared = true := by
  unfold promise
  cases e.response <;> simp [Payload.isDeclared]

theorem twins_of_template {e : Endpoint} {parts : List TemplatePart}
    (h : e.template = .ok parts) : e.Twins parts (e.parameters parts) := by
  have hdeclaration (flavor : Flavor) : e.declaration flavor = .ok (e.functionText
      ((e.parameters parts).map (·.text flavor)) (e.returnType flavor) parts) :=
    declaration_eq_ok h flavor
  constructor
  case template => exact h
  case names =>
    rw [e.parameters_names parts]
    exact Except.map_eq_ok.2 ⟨parts, h, rfl⟩
  case types => exact e.parameters_types parts
  case untyped => exact hdeclaration .untyped
  case typed => exact e.returnType_typed ▸ hdeclaration .typed
  case promised => exact e.promise_ne_empty_iff

end Endpoint

namespace Client

/-- Both flavors fail with the same error, or both give a module of twins in the order of the
endpoints. -/
theorem generate_flavors_agree (endpoints : List Endpoint) :
    (∃ log err, generate endpoints .untyped = ⟨log, .error err⟩ ∧
        generate endpoints .typed = ⟨log, .error err⟩) ∨
      ∃ untyped typed,
        (generate endpoints .untyped).result = .ok (header ++ functionsText untyped) ∧
        (generate endpoints .typed).result = .ok (header ++ functionsText typed) ∧
        endpoints.mapM (·.declaration .untyped) = .ok untyped ∧
        endpoints.mapM (·.declaration .typed) = .ok typed ∧
        ∀ e ∈ endpoints, ∃ parts parameters, e.Twins parts parameters := by
  rcases admissible_or_exists_fault endpoints with h | ⟨before, e, after, err, rfl, hbefore, herr⟩
  · right
    obtain ⟨untyped, huntyped⟩ := h.exists_texts .untyped
    obtain ⟨typed, htyped⟩ := h.exists_texts .typed
    refine ⟨untyped, typed, ?_, ?_, huntyped, htyped, ?_⟩
    · rw [generate_of_admissible h huntyped]
    · rw [generate_of_admissible h htyped]
    · intro e he
      obtain ⟨parts, names, htakes, -⟩ := h.arguments e he
      exact ⟨parts, e.parameters parts, Endpoint.twins_of_template htakes.template⟩
  · left
    exact ⟨_, err, generate_of_fault hbefore herr .untyped, generate_of_fault hbefore herr .typed⟩

end Client

end ApiContract
