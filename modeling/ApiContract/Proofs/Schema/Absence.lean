import ApiContract.Proofs.Schema.Outcome

namespace ApiContract

namespace Schema

open Inspection

/-- The schema itself has a fault that is found before the absence of a value. Only the first member
of an intersection is reached, and a union drops the errors of its variants. -/
inductive Malformed : Schema → Prop
  | emptyUnion : Malformed (.anyOf [])
  | intersection {members} : ¬Intersects members → Malformed (.allOf members)
  | firstMember {m rest} : Intersects (m :: rest) → Malformed m → Malformed (.allOf (m :: rest))
  | refined {base predicate} : Malformed base → Malformed (.refined base predicate)

theorem malformed_allOf_iff {m : Schema} {rest : List Schema} (h : Intersects (m :: rest)) :
    Malformed (.allOf (m :: rest)) ↔ Malformed m := by
  constructor
  · intro hmalformed
    cases hmalformed with
    | intersection hnot => exact absurd h hnot
    | firstMember _ hm => exact hm
  · exact .firstMember h

theorem malformed_refined_iff {base : Schema} {predicate : Option Predicate} :
    Malformed (.refined base predicate) ↔ Malformed base := by
  constructor
  · intro hmalformed
    cases hmalformed with
    | refined hbase => exact hbase
  · exact .refined

theorem schemaAuthoring_iff_malformed {s : Schema} {mode : Mode} {e : Violation}
    (h : (s.inspect mode none).outcome = .error e) : e.kind = .schemaAuthoring ↔ s.Malformed := by
  induction s generalizing mode with
  | primitive | literal | shape | arrayOf | mapOf =>
    cases h
    constructor <;> rintro ⟨⟩
  | anyOf variants =>
    rcases inspect_anyOf_outcome_eq_error h with ⟨rfl, rfl⟩ | ⟨hne, rfl⟩
    · exact ⟨fun _ => .emptyUnion, fun _ => rfl⟩
    · constructor <;> rintro ⟨⟩
      exact absurd rfl hne
  | allOf members ih =>
    by_cases hmembers : Intersects members
    · cases members with
      | nil => exact absurd rfl hmembers.1
      | cons m rest =>
        obtain ⟨e', he', _⟩ := m.inspect_none .lenient
        rw [inspect_allOf hmembers, each, he'] at h
        cases h
        rw [malformed_allOf_iff hmembers]
        exact ih m (by simp) (congrArg Inspection.outcome he')
    · obtain ⟨reason, hfail⟩ := inspect_allOf_of_not_intersects hmembers mode none
      rw [hfail] at h
      cases h
      exact ⟨fun _ => .intersection hmembers, fun _ => rfl⟩
  | refined base predicate ih =>
    obtain ⟨e', he', _⟩ := base.inspect_none mode
    rw [inspect, he'] at h
    cases h
    rw [malformed_refined_iff]
    exact ih (congrArg Inspection.outcome he')

end Schema

structure Violation.OfMissing (e : Violation) (name : String) (schema : Schema) : Prop where
  location : e.location = [.field name]
  missing : ¬schema.Malformed →
    e.kind = .missingField ∧ ∃ text, e.reason.text = text ++ "undefined"
  authoring : schema.Malformed → e.kind = .schemaAuthoring

theorem Violation.OfAbsence.below {e : Violation} (h : e.OfAbsence []) (location : Location) :
    (e.below location).OfAbsence location := by
  refine ⟨?_, h.2⟩
  rw [Violation.below, h.1, List.append_nil]

theorem Violation.OfAbsence.ofMissing {e : Violation} {schema : Schema} (h : e.OfAbsence [])
    (hkind : e.kind = .schemaAuthoring ↔ schema.Malformed) (name : String) :
    (e.under (.field name)).asMissing.OfMissing name schema := by
  rcases h.asMissing_eq (.field name) with ⟨hother, hends, heq⟩ | ⟨hauthoring, heq⟩
  · rw [heq]
    exact ⟨rfl, fun _ => ⟨rfl, hends⟩, fun hmalformed => absurd (hkind.2 hmalformed) hother⟩
  · rw [heq]
    exact ⟨rfl, fun hsound => absurd (hkind.1 hauthoring) hsound, fun _ => rfl⟩

namespace Schema

open Inspection

/-- No schema accepts an absent value, so an absent required field is a violation. -/
theorem required_field_missing (s : Schema) (mode : Mode) :
    (∀ path : Frame, ∃ e : Violation, s.check mode path none = ⟨[], .error e⟩ ∧
        e.OfAbsence path.segments ∧ (e.kind = .schemaAuthoring ↔ s.Malformed)) ∧
      ∀ (before after : List Field) (name : String) (entries : List (String × Json)),
        (∀ f ∈ before, f.isMeta = false →
          (∀ v, entries.lookup f.name = some v → f.schema.validate mode v = .ok ()) ∧
            (entries.lookup f.name = none → f.optional = true)) →
        Identifier.isMeta name = false → entries.lookup name = none →
        ∃ e : Violation, (Schema.shape (before ++ ⟨name, false, s⟩ :: after)).validate mode
            (.obj entries) = .error e ∧ e.OfMissing name s := by
  obtain ⟨e, he, habsence⟩ := s.inspect_none mode
  have hkind := schemaAuthoring_iff_malformed (congrArg Inspection.outcome he)
  refine ⟨fun path => ⟨e.below path.segments, ?_, habsence.below _, hkind⟩,
    fun before after name entries hbefore hname hnone => ?_⟩
  · rw [s.rerooted, he]
    rfl
  refine ⟨(e.under (.field name)).asMissing, ?_, habsence.ofMissing hkind name⟩
  rw [validate_eq, inspect_shape_obj, andThen_outcome_eq_error]
  refine .inl (each_outcome_eq_error.2 ⟨before, _, after, rfl, ?_, ?_⟩)
  · intro f hf
    simpa only [Field.inspect_outcome_eq_ok, ← validate_eq] using hbefore f hf
  · refine Field.inspect_outcome_eq_error.2 ⟨hname, .inr ⟨e, hnone, rfl, ?_, rfl⟩⟩
    exact congrArg Inspection.outcome he

theorem required_field_missing_behind_meta :
    let s : Schema := .refined (.anyOf [.allOf [], .string]) (some ⟨"any", fun _ => .accept⟩)
    let fields : List Field := [⟨"id", false, .string⟩, ⟨"$id", false, .null⟩, ⟨"name", false, s⟩]
    ¬s.Malformed ∧ ∃ e : Violation,
      (Schema.shape fields).validate .strict (.obj [("id", .str "a")]) = .error e ∧
        e.OfMissing "name" s ∧ e.kind = .missingField := by
  intro s fields
  have hsound : ¬s.Malformed := by
    intro hmalformed
    cases malformed_refined_iff.1 hmalformed
  have hbefore : ∀ f ∈ fields.take 2, f.isMeta = false →
      (∀ v, [("id", Json.str "a")].lookup f.name = some v → f.schema.validate .strict v = .ok ()) ∧
        ([("id", Json.str "a")].lookup f.name = none → f.optional = true) := by
    refine List.forall_mem_cons.2 ⟨fun _ => ?_, List.forall_mem_singleton.2 fun hmeta => ?_⟩
    · refine ⟨fun v hv => ?_, fun hnone => absurd hnone (by simp)⟩
      obtain rfl : Json.str "a" = v := by simpa using hv
      rfl
    · exact absurd hmeta (by decide)
  obtain ⟨e, he, hmissing⟩ :=
    (required_field_missing s .strict).2 (fields.take 2) [] "name" _ hbefore (by decide) (by decide)
  exact ⟨hsound, e, he, hmissing, (hmissing.missing hsound).1⟩

end Schema

end ApiContract
