import ApiContract.Proofs.Lists
import ApiContract.Proofs.Schema.Outcome

namespace ApiContract

namespace Json

inductive Child : Json → Segment → Json → Prop
  | field {entries k v} : (k, v) ∈ entries → Child (.obj entries) (.field k) v
  | index {values i v} : values[i]? = some v → Child (.arr values) (.index i) v

/-- Walking a location from a value leads to a part of it. -/
inductive At : Json → Location → Json → Prop
  | here {v} : At v [] v
  | step {v segment w location u} :
    Child v segment w → At w location u → At v (segment :: location) u

def Lacks (v : Json) (location : Location) : Prop :=
  ∃ outer entries k, location = outer ++ [.field k] ∧ At v outer (.obj entries) ∧
    ∀ w, (k, w) ∉ entries

theorem At.dropLast {v w : Json} {location : Location} (h : At v location w) :
    ∃ u, At v location.dropLast u := by
  induction h with
  | here => exact ⟨_, .here⟩
  | step hchild h ih =>
    cases h with
    | here => exact ⟨_, .here⟩
    | step =>
      obtain ⟨u, hu⟩ := ih
      exact ⟨u, .step hchild hu⟩

theorem Lacks.dropLast {v : Json} {location : Location} (h : Lacks v location) :
    ∃ u, At v location.dropLast u := by
  obtain ⟨outer, entries, k, rfl, hat, _⟩ := h
  exact ⟨.obj entries, by simpa using hat⟩

theorem Lacks.step {v w : Json} {segment : Segment} {location : Location}
    (hchild : Child v segment w) (h : Lacks w location) : Lacks v (segment :: location) := by
  obtain ⟨outer, entries, k, rfl, hat, hk⟩ := h
  exact ⟨segment :: outer, entries, k, rfl, .step hchild hat, hk⟩

end Json

namespace Violation

def ReasonEnds (e : Violation) (text : String) : Prop :=
  ∃ start, e.reason.text = start ++ text

/-- A violation is about the part of `v` at its location or, if a field is missing, about a key that
the object there lacks. -/
def PointsInto (e : Violation) (v : Json) : Prop :=
  match e.kind with
  | .shapeMismatch | .structureMismatch | .unionExhausted | .customValidationFailed =>
    ∃ w, v.At e.location w ∧ e.ReasonEnds w.text
  | .customValidationError => ∃ w, v.At e.location w
  | .unexpectedField =>
    ∃ entries k w, v.At e.location (.obj entries) ∧ (k, w) ∈ entries ∧
      e.ReasonEnds (Json.stringText k)
  | .missingField => v.Lacks e.location ∧ e.ReasonEnds "undefined"
  | .schemaAuthoring => (∃ w, v.At e.location w) ∨ v.Lacks e.location

theorem PointsInto.under {e : Violation} {v w : Json} {segment : Segment}
    (hchild : v.Child segment w) (h : e.PointsInto w) : (e.under segment).PointsInto v := by
  obtain ⟨kind, location, reason⟩ := e
  cases kind with
  | shapeMismatch | structureMismatch | unionExhausted | customValidationFailed =>
    obtain ⟨u, hat, hends⟩ := h
    exact ⟨u, .step hchild hat, hends⟩
  | customValidationError =>
    obtain ⟨u, hat⟩ := h
    exact ⟨u, .step hchild hat⟩
  | unexpectedField =>
    obtain ⟨entries, k, u, hat, hmem, hends⟩ := h
    exact ⟨entries, k, u, .step hchild hat, hmem, hends⟩
  | missingField =>
    obtain ⟨hlacks, hends⟩ := h
    exact ⟨hlacks.step hchild, hends⟩
  | schemaAuthoring =>
    rcases h with ⟨u, hat⟩ | hlacks
    · exact .inl ⟨u, .step hchild hat⟩
    · exact .inr (hlacks.step hchild)

theorem PointsInto.dropLast {e : Violation} {v : Json} (h : e.PointsInto v) :
    ∃ w, v.At e.location.dropLast w := by
  obtain ⟨kind, location, reason⟩ := e
  cases kind with
  | shapeMismatch | structureMismatch | unionExhausted | customValidationFailed =>
    obtain ⟨u, hat, _⟩ := h
    exact hat.dropLast
  | customValidationError =>
    obtain ⟨u, hat⟩ := h
    exact hat.dropLast
  | unexpectedField =>
    obtain ⟨entries, k, u, hat, _⟩ := h
    exact hat.dropLast
  | missingField => exact h.1.dropLast
  | schemaAuthoring =>
    rcases h with ⟨u, hat⟩ | hlacks
    · exact hat.dropLast
    · exact hlacks.dropLast

theorem OfAbsence.pointsInto {e : Violation} {entries : List (String × Json)} {k : String}
    (h : e.OfAbsence []) (hk : entries.lookup k = none) :
    (e.under (.field k)).asMissing.PointsInto (.obj entries) := by
  have hlacks : (Json.obj entries).Lacks [.field k] :=
    ⟨[], entries, k, rfl, .here, not_mem_of_lookup hk⟩
  rcases h.asMissing_eq (.field k) with ⟨_, hends, heq⟩ | ⟨_, heq⟩
  · rw [heq]
    exact ⟨hlacks, hends⟩
  · rw [heq]
    exact .inr hlacks

end Violation

namespace Schema

open Inspection

theorem each_key_pointsInto {allowed : Option (List String)} {entries : List (String × Json)}
    {e : Violation} (h : (each (fun p => key allowed p.1) entries).outcome = .error e) :
    e.PointsInto (.obj entries) := by
  obtain ⟨before, ⟨k, v⟩, after, rfl, _, hk⟩ := each_outcome_eq_error.1 h
  rcases key_outcome_eq_error.1 hk with ⟨_, rfl⟩ | ⟨_, _, rfl⟩
  · exact ⟨_, k, v, .here, by simp, _, rfl⟩
  · exact ⟨_, k, v, .here, by simp, _, rfl⟩

theorem predicate_pointsInto {predicate : Option Predicate} {v : Json} {e : Violation}
    (h : (Inspection.predicate predicate (some v)).outcome = .error e) : e.PointsInto v := by
  cases predicate with
  | none => cases h
  | some p =>
    simp only [Inspection.predicate] at h
    cases hp : p.verdict v with
    | accept => simp [hp] at h
    | reject =>
      obtain rfl : ⟨.customValidationFailed, [], .refused v⟩ = e := by simpa [hp] using h
      exact ⟨v, .here, _, rfl⟩
    | error message =>
      obtain rfl : ⟨.customValidationError, [], .stated message⟩ = e := by simpa [hp] using h
      exact ⟨v, .here⟩

theorem inspect_pointsInto {s : Schema} {mode : Mode} {v : Json} {e : Violation}
    (h : (s.inspect mode (some v)).outcome = .error e) : e.PointsInto v := by
  induction s generalizing mode v e with
  | primitive p =>
    rw [inspect] at h
    split at h
    · cases h
    · cases h
      refine ⟨v, .here, ?_⟩
      cases p <;> exact ⟨_, rfl⟩
  | literal l =>
    rw [inspect] at h
    split at h
    · cases h
    · cases h
      exact ⟨v, .here, _, rfl⟩
  | shape fields ih =>
    cases v with
    | obj entries =>
      rw [inspect_shape_obj, andThen_outcome_eq_error] at h
      rcases h with h | ⟨_, h⟩
      · obtain ⟨before, f, after, rfl, _, hf⟩ := each_outcome_eq_error.1 h
        obtain ⟨_, ⟨w, e', hw, he', rfl⟩ | ⟨e', hnone, _, he', rfl⟩⟩ :=
          Field.inspect_outcome_eq_error.1 hf
        · exact (ih f (by simp) he').under (.field (mem_of_lookup hw))
        · -- the schema was checked against nothing, and the violation renamed
          exact (ofAbsence_of_inspect_none he').pointsInto hnone
      · exact each_key_pointsInto h
    | _ =>
      cases h
      exact ⟨_, .here, _, rfl⟩
  | arrayOf items ih =>
    cases v with
    | arr values =>
      obtain ⟨before, w, after, e', rfl, _, he', rfl⟩ := inspect_arrayOf_outcome_eq_error.1 h
      exact (ih he').under (.index (by simp))
    | _ =>
      cases h
      exact ⟨_, .here, _, rfl⟩
  | mapOf values ih =>
    cases v with
    | obj entries =>
      rw [inspect_mapOf_obj] at h
      obtain ⟨before, p, after, rfl, _, hp⟩ := each_outcome_eq_error.1 h
      obtain ⟨e', he', rfl⟩ := under_outcome_eq_error.1 hp
      exact (ih he').under (.field (by simp))
    | _ =>
      cases h
      exact ⟨_, .here, _, rfl⟩
  | anyOf variants _ =>
    -- what the variants reported is gone, the union speaks for itself
    rcases inspect_anyOf_outcome_eq_error h with ⟨_, rfl⟩ | ⟨_, rfl⟩
    · exact .inl ⟨v, .here⟩
    · exact ⟨v, .here, _, rfl⟩
  | allOf members ih =>
    by_cases hmembers : Intersects members
    · rw [inspect_allOf hmembers, andThen_outcome_eq_error] at h
      rcases h with h | ⟨_, h⟩
      · obtain ⟨before, s, after, rfl, _, hs⟩ := each_outcome_eq_error.1 h
        exact ih s (by simp) hs
      · cases mode with
        | lenient => cases h
        | strict =>
          cases v with
          | obj entries => exact each_key_pointsInto h
          | _ => cases h
    · obtain ⟨reason, hfail⟩ := inspect_allOf_of_not_intersects hmembers mode (some v)
      rw [hfail] at h
      cases h
      exact .inl ⟨v, .here⟩
  | refined base predicate ih =>
    rw [inspect, andThen_outcome_eq_error] at h
    rcases h with h | ⟨_, h⟩
    · exact ih h
    · exact predicate_pointsInto h

/-- Every violation points at the part of the value that is at fault. -/
theorem validate_error_pointsInto {s : Schema} {mode : Mode} {v : Json} {e : Violation}
    (h : s.validate mode v = .error e) :
    (∃ w, v.At e.location.dropLast w) ∧ e.PointsInto v := by
  have hpoints := inspect_pointsInto (validate_eq s mode v ▸ h)
  exact ⟨hpoints.dropLast, hpoints⟩

theorem validate_error_pointsInto_item :
    ∃ e, (Schema.mapOf (.arrayOf (.shape [⟨"id", false, .string⟩]))).validate .strict
          (.obj [("items", .arr [.obj [("id", .str "a")], .obj []])]) = .error e ∧
      e.kind = .missingField ∧ e.location = [.field "items", .index 1, .field "id"] ∧
      e.PointsInto (.obj [("items", .arr [.obj [("id", .str "a")], .obj []])]) := by
  refine ⟨⟨_, _, .notPrimitive .string none⟩, rfl, rfl, rfl, ?_⟩
  exact (@validate_error_pointsInto (.mapOf (.arrayOf (.shape [⟨"id", false, .string⟩]))) .strict
    _ _ rfl).2

end Schema

end ApiContract
