import ApiContract.Schema.TypeText
import ApiContract.Schema.Violation

namespace ApiContract

inductive Mode where
  | strict
  | lenient
  deriving DecidableEq

structure Call where
  predicate : Predicate
  value : Json

/-- The outcome of a check, with the predicate calls made up to the first violation. -/
structure Inspection where
  calls : List Call
  outcome : Except Violation Unit

namespace Inspection

def pass : Inspection := ⟨[], .ok ()⟩

def failAt (kind : ViolationKind) (path : Frame) (reason : Reason) : Inspection :=
  ⟨[], .error ⟨kind, path.segments, reason⟩⟩

def andThen (first : Inspection) (second : Unit → Inspection) : Inspection :=
  match first.outcome with
  | .ok () =>
    let next := second ()
    ⟨first.calls ++ next.calls, next.outcome⟩
  | .error _ => first

def orElse (first : Inspection) (second : Unit → Inspection) : Inspection :=
  match first.outcome with
  | .ok () => first
  | .error _ =>
    let next := second ()
    ⟨first.calls ++ next.calls, next.outcome⟩

def mapError (f : Violation → Violation) (i : Inspection) : Inspection :=
  { i with outcome := i.outcome.mapError f }

@[simp] theorem andThen_outcome_eq_ok {first : Inspection} {second : Unit → Inspection} :
    (first.andThen second).outcome = .ok () ↔
      first.outcome = .ok () ∧ (second ()).outcome = .ok () := by
  cases h : first.outcome <;> simp [andThen, h]

@[simp] theorem orElse_outcome_eq_ok {first : Inspection} {second : Unit → Inspection} :
    (first.orElse second).outcome = .ok () ↔
      first.outcome = .ok () ∨ (second ()).outcome = .ok () := by
  cases h : first.outcome <;> simp [orElse, h]

@[simp] theorem mapError_outcome_eq_ok {f : Violation → Violation} {i : Inspection} :
    (i.mapError f).outcome = .ok () ↔ i.outcome = .ok () := by
  obtain ⟨calls, outcome⟩ := i
  cases outcome with
  | ok => exact Iff.rfl
  | error => exact ⟨nofun, nofun⟩

@[simp] theorem mapError_calls (f : Violation → Violation) (i : Inspection) :
    (i.mapError f).calls = i.calls := rfl

def checkItems (check : Frame → Json → Inspection) (path : Frame) (position : Nat) :
    List Json → Inspection
  | [] => pass
  | v :: rest =>
    (check (path.index position) v).andThen fun _ => checkItems check path (position + 1) rest

def checkEntries (check : Frame → Json → Inspection) (path : Frame) :
    List (String × Json) → Inspection
  | [] => pass
  | (k, v) :: rest => (check (path.field k) v).andThen fun _ => checkEntries check path rest

def checkKeys (allowed : Option (List String)) (path : Frame) : List (String × Json) → Inspection
  | [] => pass
  | (k, _) :: rest =>
    if Identifier.isMeta k then
      failAt .unexpectedField path (.metaKey k)
    else if allowed.all (·.contains k) then
      checkKeys allowed path rest
    else
      failAt .unexpectedField path (.undeclaredKey k)

def checkPredicate (path : Frame) : Option Predicate → Option Json → Inspection
  | some p, some value =>
    match p.verdict value with
    | .accept => ⟨[⟨p, value⟩], .ok ()⟩
    | .reject => ⟨[⟨p, value⟩], .error ⟨.customValidationFailed, path.segments, .refused value⟩⟩
    | .error message =>
      ⟨[⟨p, value⟩], .error ⟨.customValidationError, path.segments, .stated message⟩⟩
  | _, _ => pass

end Inspection

namespace Schema

mutual

/-- Checks the value at a path, which is `none` for an absent field. Members of an intersection are
checked leniently, since each sees keys of the others; a strict intersection then compares the keys
with the names that all members declare. -/
def check : Schema → Mode → Frame → Option Json → Inspection
  | .primitive p, _, path, found =>
    if found.any p.admits then .pass else .failAt .shapeMismatch path (.notPrimitive p found)
  | .literal l, _, path, found =>
    if found.any l.admits then .pass else .failAt .shapeMismatch path (.notLiteral l found)
  | .shape fields, mode, path, found =>
    match found with
    | some (.obj entries) =>
      (checkFields fields mode path entries).andThen fun _ =>
        match mode with
        | .strict => .checkKeys (some (Field.names (Field.declared fields))) path entries
        | .lenient => .checkKeys none path entries
    | _ => .failAt .structureMismatch path (.notObject found)
  | .arrayOf items, mode, path, found =>
    match found with
    | some (.arr values) =>
      .checkItems (fun frame v => items.check mode frame (some v)) path 0 values
    | _ => .failAt .structureMismatch path (.notArray found)
  | .mapOf values, mode, path, found =>
    match found with
    | some (.obj entries) =>
      .checkEntries (fun frame v => values.check mode frame (some v)) path entries
    | _ => .failAt .structureMismatch path (.notMap found)
  | .anyOf variants, mode, path, found =>
    if variants.isEmpty then .failAt .schemaAuthoring path .emptyUnion
    else checkVariants variants mode path found
  | .allOf members, mode, path, found =>
    if members.isEmpty then
      .failAt .schemaAuthoring path .emptyIntersection
    else
      match members.find? isScalar with
      | some scalar => .failAt .schemaAuthoring path (.scalarMember scalar.typeText)
      | none =>
        (checkMembers members path found).andThen fun _ =>
          match mode, found with
          | .strict, some (.obj entries) =>
            .checkKeys (some (declaredNamesList members)) path entries
          | _, _ => .pass
  | .refined base predicate, mode, path, found =>
    (base.check mode path found).andThen fun _ => .checkPredicate path predicate found
termination_by structural s => s

def checkFields : List Field → Mode → Frame → List (String × Json) → Inspection
  | [], _, _, _ => .pass
  | ⟨name, optional, schema⟩ :: rest, mode, path, entries =>
    if Identifier.isMeta name then
      checkFields rest mode path entries
    else
      let child := path.field name
      let field : Inspection :=
        match entries.lookup name with
        | some value => schema.check mode child (some value)
        | none => if optional then .pass else (schema.check mode child none).mapError .asMissing
      field.andThen fun _ => checkFields rest mode path entries
termination_by structural fields => fields

def checkVariants : List Schema → Mode → Frame → Option Json → Inspection
  | [], _, path, found => .failAt .unionExhausted path (.noVariant found)
  | s :: rest, mode, path, found =>
    (s.check mode path found).orElse fun _ => checkVariants rest mode path found
termination_by structural variants => variants

def checkMembers : List Schema → Frame → Option Json → Inspection
  | [], _, _ => .pass
  | s :: rest, path, found =>
    (s.check .lenient path found).andThen fun _ => checkMembers rest path found
termination_by structural members => members

end

def validate (s : Schema) (mode : Mode) (value : Json) : Except Violation Unit :=
  (s.check mode .root (some value)).outcome

end Schema

end ApiContract
