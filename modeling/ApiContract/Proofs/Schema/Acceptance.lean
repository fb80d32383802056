import ApiContract.Proofs.Schema.Outcome

namespace ApiContract.Schema

/-- Declarative semantics of schemas. In strict mode an object has declared keys only, where an
intersection declares what any of its members does. -/
inductive Accepts : Mode → Schema → Json → Prop
  | string {mode s} : Accepts mode (.primitive .string) (.str s)
  | number {mode n} : Accepts mode (.primitive .number) (.num n)
  | boolean {mode b} : Accepts mode (.primitive .boolean) (.bool b)
  | null {mode} : Accepts mode (.primitive .null) .null
  | stringLiteral {mode s} : Accepts mode (.literal (.string s)) (.str s)
  | numberLiteral {mode n m} : n.same m = true → Accepts mode (.literal (.number n)) (.num m)
  | shape {mode fields entries} :
    (∀ p ∈ entries, Identifier.isMeta p.1 = false) →
    (∀ f ∈ fields, f.isMeta = false → ∀ v, entries.lookup f.name = some v →
      Accepts mode f.schema v) →
    (∀ f ∈ fields, f.isMeta = false → entries.lookup f.name = none → f.optional = true) →
    (mode = .strict → ∀ p ∈ entries, ∃ f ∈ fields, f.isMeta = false ∧ f.name = p.1) →
    Accepts mode (.shape fields) (.obj entries)
  | arrayOf {mode items values} :
    (∀ v ∈ values, Accepts mode items v) → Accepts mode (.arrayOf items) (.arr values)
  | mapOf {mode values entries} :
    (∀ p ∈ entries, Accepts mode values p.2) → Accepts mode (.mapOf values) (.obj entries)
  | anyOf {mode variants s v} :
    s ∈ variants → Accepts mode s v → Accepts mode (.anyOf variants) v
  | allOf {mode members v} :
    members ≠ [] → (∀ s ∈ members, s.isScalar = false) →
    (∀ s ∈ members, Accepts .lenient s v) →
    (mode = .strict → ∀ entries, v = .obj entries → ∀ p ∈ entries,
      ∃ s ∈ members, p.1 ∈ s.declaredNames) →
    Accepts mode (.allOf members) v
  | unrefined {mode base v} : Accepts mode base v → Accepts mode (.refined base none) v
  | refined {mode base v} {p : Predicate} :
    Accepts mode base v → p.verdict v = .accept → Accepts mode (.refined base (some p)) v

theorem primitive_admits_iff {mode : Mode} {p : Primitive} {v : Json} :
    p.admits v = true ↔ Accepts mode (.primitive p) v := by
  constructor
  · intro h
    cases p <;> cases v <;> first | constructor | simp [Primitive.admits] at h
  · intro h
    cases h <;> rfl

theorem literal_admits_iff {mode : Mode} {l : Literal} {v : Json} :
    l.admits v = true ↔ Accepts mode (.literal l) v := by
  constructor
  · intro h
    cases l with
    | string s =>
      cases v with
      | str t =>
        have hst : s = t := by simpa [Literal.admits] using h
        exact hst ▸ .stringLiteral
      | _ => simp [Literal.admits] at h
    | number n =>
      cases v with
      | num m => exact .numberLiteral h
      | _ => simp [Literal.admits] at h
  · intro h
    cases h with
    | stringLiteral => simp [Literal.admits]
    | numberLiteral h => exact h

def AcceptsField (mode : Mode) (entries : List (String × Json)) (f : Field) : Prop :=
  (∀ v, entries.lookup f.name = some v → Accepts mode f.schema v) ∧
    (entries.lookup f.name = none → f.optional = true)

theorem accepts_shape_iff {mode : Mode} {fields : List Field} {entries : List (String × Json)} :
    Accepts mode (.shape fields) (.obj entries) ↔
      (∀ f ∈ fields, f.isMeta = false → AcceptsField mode entries f) ∧
        ∀ p ∈ entries, Identifier.isMeta p.1 = false ∧
          (mode = .strict → p.1 ∈ Field.names (Field.declared fields)) := by
  have hnames (k : String) : k ∈ Field.names (Field.declared fields) ↔
      ∃ f ∈ fields, f.isMeta = false ∧ f.name = k := by
    simp [Field.declared, Field.names, and_assoc]
  simp only [hnames]
  constructor
  · intro h
    cases h with
    | shape hmeta hpresent habsent hkeys =>
      exact ⟨fun f hf hm => ⟨hpresent f hf hm, habsent f hf hm⟩,
        fun p hp => ⟨hmeta p hp, fun hmode => hkeys hmode p hp⟩⟩
  · rintro ⟨hfields, hkeys⟩
    exact .shape (fun p hp => (hkeys p hp).1) (fun f hf hm => (hfields f hf hm).1)
      (fun f hf hm => (hfields f hf hm).2) fun hmode p hp => (hkeys p hp).2 hmode

theorem accepts_anyOf_iff {mode : Mode} {variants : List Schema} {v : Json} :
    Accepts mode (.anyOf variants) v ↔ ∃ s ∈ variants, Accepts mode s v := by
  constructor
  · intro h
    cases h with
    | anyOf hs h => exact ⟨_, hs, h⟩
  · rintro ⟨s, hs, h⟩
    exact .anyOf hs h

theorem accepts_allOf_iff {mode : Mode} {members : List Schema} {v : Json} :
    Accepts mode (.allOf members) v ↔
      Intersects members ∧ (∀ s ∈ members, Accepts .lenient s v) ∧
        (mode = .strict → ∀ entries, v = .obj entries → ∀ p ∈ entries,
          p.1 ∈ declaredNamesList members) := by
  simp only [mem_declaredNamesList]
  constructor
  · intro h
    cases h with
    | allOf hne hscalar hmembers hkeys => exact ⟨⟨hne, hscalar⟩, hmembers, hkeys⟩
  · rintro ⟨⟨hne, hscalar⟩, hmembers, hkeys⟩
    exact .allOf hne hscalar hmembers hkeys

open Inspection

theorem inspectKeys_outcome_eq_ok {members : List Schema} {mode : Mode} {v : Json} :
    (inspectKeys members mode (some v)).outcome = .ok () ↔
      (mode = .strict → ∀ entries, v = .obj entries → ∀ p ∈ entries,
        p.1 ∈ declaredNamesList members) := by
  cases mode with
  | lenient => simp [inspectKeys]
  | strict =>
    cases v with
    | obj entries =>
      simp only [inspectKeys, each_outcome_eq_ok, key_outcome_eq_ok]
      constructor
      · rintro h _ _ ⟨⟩ p hp
        exact (h p hp).2 _ rfl
      · intro h p hp
        have hdeclared := h trivial entries rfl p hp
        refine ⟨not_isMeta_of_mem_declaredNamesList hdeclared, ?_⟩
        rintro names ⟨⟩
        exact hdeclared
    | _ => simp [inspectKeys]

theorem predicate_outcome_eq_ok {predicate : Option Predicate} {v : Json} :
    (Inspection.predicate predicate (some v)).outcome = .ok () ↔
      ∀ p, predicate = some p → p.verdict v = .accept := by
  cases predicate with
  | none => simp [Inspection.predicate]
  | some p => cases hp : p.verdict v <;> simp [Inspection.predicate, hp]

theorem accepts_refined_iff {mode : Mode} {base : Schema} {predicate : Option Predicate}
    {v : Json} :
    Accepts mode (.refined base predicate) v ↔
      Accepts mode base v ∧ ∀ p, predicate = some p → p.verdict v = .accept := by
  constructor
  · intro h
    cases h with
    | unrefined hbase => exact ⟨hbase, nofun⟩
    | refined hbase hp => exact ⟨hbase, by rintro _ ⟨⟩; exact hp⟩
  · rintro ⟨hbase, hp⟩
    cases predicate with
    | none => exact .unrefined hbase
    | some p => exact .refined hbase (hp p rfl)

theorem inspect_outcome_eq_ok {s : Schema} {mode : Mode} {v : Json} :
    (s.inspect mode (some v)).outcome = .ok () ↔ Accepts mode s v := by
  induction s generalizing mode v with
  | primitive p =>
    rw [← primitive_admits_iff]
    cases h : p.admits v <;> simp [inspect, h]
  | literal l =>
    rw [← literal_admits_iff]
    cases h : l.admits v <;> simp [inspect, h]
  | shape fields ih =>
    cases v with
    | obj entries =>
      rw [inspect_shape_obj, andThen_outcome_eq_ok, each_outcome_eq_ok, each_outcome_eq_ok,
        accepts_shape_iff]
      apply and_congr
      · apply forall₂_congr
        intro f hf
        simp only [Field.inspect_outcome_eq_ok, AcceptsField, ih f hf]
      · apply forall₂_congr
        intro p _
        rw [key_outcome_eq_ok]
        cases mode <;> simp [Mode.allowed]
    | _ => constructor <;> intro h <;> cases h
  | arrayOf items ih =>
    cases v with
    | arr values =>
      simp only [inspect_arrayOf_outcome_eq_ok, ih]
      constructor
      · exact .arrayOf
      · intro h
        cases h with
        | arrayOf h => exact h
    | _ => constructor <;> intro h <;> cases h
  | mapOf values ih =>
    cases v with
    | obj entries =>
      rw [inspect_mapOf_obj, each_outcome_eq_ok]
      simp only [under_outcome_eq_ok, ih]
      constructor
      · exact .mapOf
      · intro h
        cases h with
        | mapOf h => exact h
    | _ => constructor <;> intro h <;> cases h
  | anyOf variants ih =>
    rw [inspect_anyOf_outcome_eq_ok, accepts_anyOf_iff]
    apply exists_congr
    intro s
    apply and_congr_right
    exact fun hs => ih s hs
  | allOf members ih =>
    rw [accepts_allOf_iff]
    by_cases h : Intersects members
    · rw [inspect_allOf h, andThen_outcome_eq_ok, each_outcome_eq_ok, inspectKeys_outcome_eq_ok]
      simp only [h, true_and]
      apply and_congr_left'
      apply forall₂_congr
      intro s hs
      exact ih s hs
    · obtain ⟨reason, hfail⟩ := inspect_allOf_of_not_intersects h mode (some v)
      simp [hfail, h]
  | refined base predicate ih =>
    rw [inspect, andThen_outcome_eq_ok, ih, predicate_outcome_eq_ok, accepts_refined_iff]

theorem validate_eq_ok {s : Schema} {mode : Mode} {v : Json} :
    s.validate mode v = .ok () ↔ Accepts mode s v := by
  rw [validate_eq, inspect_outcome_eq_ok]

theorem inspectField_outcome_eq_ok {f : Field} {mode : Mode} {entries : List (String × Json)} :
    (f.inspect mode entries).outcome = .ok () ↔
      (f.isMeta = false → AcceptsField mode entries f) := by
  simp only [Field.inspect_outcome_eq_ok, AcceptsField, inspect_outcome_eq_ok]

/-- Validation succeeds exactly on the accepted values, and never on an absent one. -/
theorem validate_eq_ok_iff_accepts (s : Schema) (mode : Mode) :
    (∀ v, s.validate mode v = .ok () ↔ Accepts mode s v) ∧
      ∀ path, (s.check mode path none).outcome ≠ .ok () := by
  constructor
  · intro v
    exact validate_eq_ok
  · intro path
    rw [s.rerooted, ne_eq, below_outcome_eq_ok]
    exact s.inspect_none_outcome_ne_ok mode

end ApiContract.Schema
