import ApiContract.Proofs.Schema.Structure
import ApiContract.Schema.Inspection
import Mathlib

/-!
A check hands the path down as a chain of frames. `inspect` knows no path: it locates a violation
from the value that it is given, and puts a segment in front on the way out. The two agree, with the
segments of the frame in front of what `inspect` says.
-/

namespace ApiContract

namespace Frame

theorem pushUp_eq (segments : Location) (frame : Frame) :
    frame.pushUp segments = segments ++ frame.pushUp [] := by
  induction frame generalizing segments with
  | root => exact (List.append_nil segments).symm
  | field parent name ih =>
    rw [pushUp, pushUp, ih (segments ++ _), ih ([] ++ _), List.append_assoc, List.nil_append]
  | index parent position ih =>
    rw [pushUp, pushUp, ih (segments ++ _), ih ([] ++ _), List.append_assoc, List.nil_append]

@[simp] theorem segments_root : root.segments = [] := rfl

@[simp] theorem segments_field (frame : Frame) (name : String) :
    (frame.field name).segments = frame.segments ++ [.field name] := by
  rw [segments, pushUp, pushUp_eq, List.reverse_append]
  rfl

@[simp] theorem segments_index (frame : Frame) (position : Nat) :
    (frame.index position).segments = frame.segments ++ [.index position] := by
  rw [segments, pushUp, pushUp_eq, List.reverse_append]
  rfl

end Frame

namespace Violation

def under (segment : Segment) (v : Violation) : Violation :=
  { v with location := segment :: v.location }

def below (location : Location) (v : Violation) : Violation :=
  { v with location := location ++ v.location }

theorem below_under (location : Location) (segment : Segment) (v : Violation) :
    (v.under segment).below location = v.below (location ++ [segment]) := by
  simp [under, below]

theorem asMissing_below (location : Location) (v : Violation) :
    (v.below location).asMissing = v.asMissing.below location := by
  obtain ⟨kind, _, _⟩ := v
  cases kind <;> rfl

end Violation

namespace Inspection

def fail (kind : ViolationKind) (reason : Reason) : Inspection :=
  ⟨[], .error ⟨kind, [], reason⟩⟩

def under (segment : Segment) (i : Inspection) : Inspection :=
  i.mapError (.under segment)

@[simp] theorem under_outcome_eq_ok {segment : Segment} {i : Inspection} :
    (i.under segment).outcome = .ok () ↔ i.outcome = .ok () :=
  mapError_outcome_eq_ok

@[simp] theorem under_calls (segment : Segment) (i : Inspection) :
    (i.under segment).calls = i.calls := rfl

def items (inspect : Json → Inspection) (position : Nat) : List Json → Inspection
  | [] => pass
  | v :: rest =>
    ((inspect v).under (.index position)).andThen fun _ => items inspect (position + 1) rest

def members (inspect : Json → Inspection) : List (String × Json) → Inspection
  | [] => pass
  | (k, v) :: rest => ((inspect v).under (.field k)).andThen fun _ => members inspect rest

def keys (allowed : Option (List String)) : List (String × Json) → Inspection
  | [] => pass
  | (k, _) :: rest =>
    if Identifier.isMeta k then
      fail .unexpectedField (.metaKey k)
    else if allowed.all (·.contains k) then
      keys allowed rest
    else
      fail .unexpectedField (.undeclaredKey k)

def predicate : Option Predicate → Option Json → Inspection
  | some p, some value =>
    match p.verdict value with
    | .accept => ⟨[⟨p, value⟩], .ok ()⟩
    | .reject => ⟨[⟨p, value⟩], .error ⟨.customValidationFailed, [], .refused value⟩⟩
    | .error message => ⟨[⟨p, value⟩], .error ⟨.customValidationError, [], .stated message⟩⟩
  | _, _ => pass

end Inspection

namespace Schema

mutual

def inspect : Schema → Mode → Option Json → Inspection
  | .primitive p, _, found =>
    if found.any p.admits then .pass else .fail .shapeMismatch (.notPrimitive p found)
  | .literal l, _, found =>
    if found.any l.admits then .pass else .fail .shapeMismatch (.notLiteral l found)
  | .shape fields, mode, found =>
    match found with
    | some (.obj members) =>
      (inspectFields fields mode members).andThen fun _ =>
        match mode with
        | .strict => .keys (some (Field.names (Field.declared fields))) members
        | .lenient => .keys none members
    | _ => .fail .structureMismatch (.notObject found)
  | .arrayOf items, mode, found =>
    match found with
    | some (.arr values) => .items (fun v => items.inspect mode (some v)) 0 values
    | _ => .fail .structureMismatch (.notArray found)
  | .mapOf values, mode, found =>
    match found with
    | some (.obj members) => .members (fun v => values.inspect mode (some v)) members
    | _ => .fail .structureMismatch (.notMap found)
  | .anyOf variants, mode, found =>
    if variants.isEmpty then .fail .schemaAuthoring .emptyUnion
    else inspectVariants variants mode found
  | .allOf members, mode, found =>
    if members.isEmpty then
      .fail .schemaAuthoring .emptyIntersection
    else
      match members.find? isScalar with
      | some scalar => .fail .schemaAuthoring (.scalarMember scalar.typeText)
      | none =>
        (inspectMembers members found).andThen fun _ =>
          match mode, found with
          | .strict, some (.obj entries) => .keys (some (declaredNamesList members)) entries
          | _, _ => .pass
  | .refined base predicate, mode, found =>
    (base.inspect mode found).andThen fun _ => .predicate predicate found
termination_by structural s => s

def inspectFields : List Field → Mode → List (String × Json) → Inspection
  | [], _, _ => .pass
  | ⟨name, optional, schema⟩ :: rest, mode, members =>
    if Identifier.isMeta name then
      inspectFields rest mode members
    else
      let field : Inspection :=
        match members.lookup name with
        | some value => (schema.inspect mode (some value)).under (.field name)
        | none =>
          if optional then .pass
          else ((schema.inspect mode none).under (.field name)).mapError .asMissing
      field.andThen fun _ => inspectFields rest mode members
termination_by structural fields => fields

def inspectVariants : List Schema → Mode → Option Json → Inspection
  | [], _, found => .fail .unionExhausted (.noVariant found)
  | s :: rest, mode, found => (s.inspect mode found).orElse fun _ => inspectVariants rest mode found
termination_by structural variants => variants

def inspectMembers : List Schema → Option Json → Inspection
  | [], _ => .pass
  | s :: rest, found => (s.inspect .lenient found).andThen fun _ => inspectMembers rest found
termination_by structural members => members

end

end Schema

namespace Inspection

def below (location : Location) (i : Inspection) : Inspection :=
  i.mapError (.below location)

section Below

variable (location : Location)

@[simp] theorem below_pass : pass.below location = pass := rfl

@[simp] theorem below_calls (i : Inspection) : (i.below location).calls = i.calls := rfl

@[simp] theorem below_outcome_eq_ok {location : Location} {i : Inspection} :
    (i.below location).outcome = .ok () ↔ i.outcome = .ok () :=
  mapError_outcome_eq_ok

@[simp] theorem below_nil (i : Inspection) : i.below [] = i := by
  obtain ⟨calls, outcome⟩ := i
  cases outcome <;> rfl

theorem below_andThen (first : Inspection) (second : Unit → Inspection) :
    (first.andThen second).below location =
      (first.below location).andThen fun _ => (second ()).below location := by
  obtain ⟨calls, outcome⟩ := first
  cases outcome <;> rfl

theorem below_orElse (first : Inspection) (second : Unit → Inspection) :
    (first.orElse second).below location =
      (first.below location).orElse fun _ => (second ()).below location := by
  obtain ⟨calls, outcome⟩ := first
  cases outcome <;> rfl

theorem below_under (segment : Segment) (i : Inspection) :
    (i.under segment).below location = i.below (location ++ [segment]) := by
  obtain ⟨calls, outcome⟩ := i
  cases outcome with
  | ok => rfl
  | error e => exact congrArg (Inspection.mk calls <| .error ·) (e.below_under location segment)

theorem below_mapError_asMissing (i : Inspection) :
    (i.mapError .asMissing).below location = (i.below location).mapError .asMissing := by
  obtain ⟨calls, outcome⟩ := i
  cases outcome with
  | ok => rfl
  | error e => exact congrArg (Inspection.mk calls <| .error ·) (e.asMissing_below location).symm

end Below

variable {check : Frame → Json → Inspection} {inspect : Json → Inspection}

theorem failAt_eq (kind : ViolationKind) (path : Frame) (reason : Reason) :
    failAt kind path reason = (fail kind reason).below path.segments := by
  simp [failAt, fail, below, mapError, Except.mapError, Violation.below]

theorem checkItems_eq (h : ∀ frame v, check frame v = (inspect v).below frame.segments)
    (path : Frame) (position : Nat) (values : List Json) :
    checkItems check path position values =
      (items inspect position values).below path.segments := by
  induction values generalizing position with
  | nil => rfl
  | cons v rest ih =>
    rw [checkItems, items, below_andThen, below_under, h, ih, Frame.segments_index]

theorem checkEntries_eq (h : ∀ frame v, check frame v = (inspect v).below frame.segments)
    (path : Frame) (entries : List (String × Json)) :
    checkEntries check path entries = (members inspect entries).below path.segments := by
  induction entries with
  | nil => rfl
  | cons p rest ih =>
    rw [checkEntries, members, below_andThen, below_under, h, ih, Frame.segments_field]

theorem checkKeys_eq (allowed : Option (List String)) (path : Frame)
    (entries : List (String × Json)) :
    checkKeys allowed path entries = (keys allowed entries).below path.segments := by
  induction entries with
  | nil => rfl
  | cons p rest ih =>
    simp only [checkKeys, keys, failAt_eq, ih]
    split
    · rfl
    · split <;> rfl

theorem checkPredicate_eq (path : Frame) (p : Option Predicate) (found : Option Json) :
    checkPredicate path p found = (predicate p found).below path.segments := by
  cases p with
  | none => rfl
  | some p =>
    cases found with
    | none => rfl
    | some v =>
      cases h : p.verdict v <;>
        simp [checkPredicate, predicate, h, below, mapError, Except.mapError, Violation.below]

end Inspection

namespace Schema

open Inspection

def Rerooted (s : Schema) : Prop :=
  ∀ mode path found, s.check mode path found = (s.inspect mode found).below path.segments

theorem checkFields_eq {fields : List Field} (h : ∀ f ∈ fields, f.schema.Rerooted) (mode : Mode)
    (path : Frame) (entries : List (String × Json)) :
    checkFields fields mode path entries =
      (inspectFields fields mode entries).below path.segments := by
  induction fields with
  | nil => rfl
  | cons f rest ih =>
    obtain ⟨name, optional, schema⟩ := f
    obtain ⟨hschema, hrest⟩ := List.forall_mem_cons.1 h
    rw [checkFields, inspectFields, ih hrest]
    split
    · rfl
    · rw [below_andThen]
      cases entries.lookup name with
      | some v => simp only [hschema mode, Frame.segments_field, below_under]
      | none =>
        cases optional <;>
          simp [hschema mode, below_under, below_mapError_asMissing]

theorem checkVariants_eq {variants : List Schema} (h : ∀ s ∈ variants, s.Rerooted) (mode : Mode)
    (path : Frame) (found : Option Json) :
    checkVariants variants mode path found =
      (inspectVariants variants mode found).below path.segments := by
  induction variants with
  | nil => exact failAt_eq _ _ _
  | cons s rest ih =>
    obtain ⟨hs, hrest⟩ := List.forall_mem_cons.1 h
    rw [checkVariants, inspectVariants, below_orElse, hs mode, ih hrest]

theorem checkMembers_eq {members : List Schema} (h : ∀ s ∈ members, s.Rerooted) (path : Frame)
    (found : Option Json) :
    checkMembers members path found = (inspectMembers members found).below path.segments := by
  induction members with
  | nil => rfl
  | cons s rest ih =>
    obtain ⟨hs, hrest⟩ := List.forall_mem_cons.1 h
    rw [checkMembers, inspectMembers, below_andThen, hs .lenient, ih hrest]

theorem rerooted (s : Schema) : s.Rerooted := by
  intro mode path found
  induction s generalizing mode path found with
  | primitive p =>
    rw [check, inspect, failAt_eq]
    split <;> rfl
  | literal l =>
    rw [check, inspect, failAt_eq]
    split <;> rfl
  | shape fields ih =>
    cases found with
    | none => exact failAt_eq _ _ _
    | some v =>
      cases v with
      | obj entries =>
        cases mode <;>
          simp only [check, inspect, checkFields_eq ih, below_andThen, checkKeys_eq]
      | _ => exact failAt_eq _ _ _
  | arrayOf items ih =>
    cases found with
    | none => exact failAt_eq _ _ _
    | some v =>
      cases v with
      | arr values => exact checkItems_eq (fun frame v => ih mode frame (some v)) path 0 values
      | _ => exact failAt_eq _ _ _
  | mapOf values ih =>
    cases found with
    | none => exact failAt_eq _ _ _
    | some v =>
      cases v with
      | obj entries => exact checkEntries_eq (fun frame v => ih mode frame (some v)) path entries
      | _ => exact failAt_eq _ _ _
  | anyOf variants ih =>
    rw [check, inspect, failAt_eq, checkVariants_eq ih]
    split <;> rfl
  | allOf members ih =>
    unfold check inspect
    split
    · exact failAt_eq _ _ _
    · cases members.find? isScalar with
      | some scalar => exact failAt_eq _ _ _
      | none =>
        simp only [checkMembers_eq ih, below_andThen, checkKeys_eq]
        cases mode with
        | lenient => rfl
        | strict =>
          cases found with
          | none => rfl
          | some v => cases v <;> rfl
  | refined base predicate ih =>
    rw [check, inspect, below_andThen, ih, checkPredicate_eq]

theorem check_calls (s : Schema) (mode : Mode) (path : Frame) (found : Option Json) :
    (s.check mode path found).calls = (s.inspect mode found).calls := by
  rw [s.rerooted, below_calls]

theorem check_root (s : Schema) (mode : Mode) (found : Option Json) :
    s.check mode .root found = s.inspect mode found := by
  rw [s.rerooted, Frame.segments_root, below_nil]

theorem validate_eq (s : Schema) (mode : Mode) (v : Json) :
    s.validate mode v = (s.inspect mode (some v)).outcome :=
  congrArg Inspection.outcome (s.check_root mode (some v))

end Schema

end ApiContract
