import ApiContract.Proofs.Schema.Naming
import ApiContract.Proofs.Schema.Widening

namespace ApiContract

namespace Schema

mutual

def bare : Schema → Schema
  | .primitive p => .primitive p
  | .literal l => .literal l
  | .shape fields => .shape (bareFields fields)
  | .arrayOf items => .arrayOf items.bare
  | .mapOf values => .mapOf values.bare
  | .anyOf variants => .anyOf (bareList variants)
  | .allOf members => .allOf (bareList members)
  | .refined base _ => .refined base.bare none
termination_by structural s => s

def bareFields : List Field → List Field
  | [] => []
  | ⟨name, optional, schema⟩ :: rest => ⟨name, optional, schema.bare⟩ :: bareFields rest
termination_by structural fields => fields

def bareList : List Schema → List Schema
  | [] => []
  | s :: rest => s.bare :: bareList rest
termination_by structural schemas => schemas

end

end Schema

def Field.bare (f : Field) : Field :=
  { f with schema := f.schema.bare }

theorem Field.bare_eq {f : Field} (h : f.schema.bare = f.schema) : f.bare = f := by
  obtain ⟨name, optional, schema⟩ := f
  exact congrArg (Field.mk name optional) h

namespace Schema

theorem bareFields_eq_map (fields : List Field) : bareFields fields = fields.map Field.bare := by
  induction fields with
  | nil => rfl
  | cons f rest ih =>
    obtain ⟨name, optional, schema⟩ := f
    rw [bareFields, ih, List.map_cons, Field.bare]

theorem bareList_eq_map (schemas : List Schema) : bareList schemas = schemas.map bare := by
  induction schemas with
  | nil => rfl
  | cons s rest ih => simp [bareList, ih]

theorem bare_shape (fields : List Field) :
    (Schema.shape fields).bare = .shape (fields.map Field.bare) := by
  rw [bare, bareFields_eq_map]

theorem bare_anyOf (variants : List Schema) :
    (Schema.anyOf variants).bare = .anyOf (variants.map bare) := by
  rw [bare, bareList_eq_map]

theorem bare_allOf (members : List Schema) :
    (Schema.allOf members).bare = .allOf (members.map bare) := by
  rw [bare, bareList_eq_map]

@[simp] theorem names_map_bare (fields : List Field) :
    Field.names (fields.map Field.bare) = Field.names fields := by
  simp [Field.names, Field.bare]

inductive PredicateFree : Schema → Prop
  | primitive {kind} : PredicateFree (.primitive kind)
  | literal {value} : PredicateFree (.literal value)
  | shape {fields : List Field} : (∀ f ∈ fields, PredicateFree f.schema) →
    PredicateFree (.shape fields)
  | arrayOf {items} : PredicateFree items → PredicateFree (.arrayOf items)
  | mapOf {values} : PredicateFree values → PredicateFree (.mapOf values)
  | anyOf {variants} : (∀ s ∈ variants, PredicateFree s) → PredicateFree (.anyOf variants)
  | allOf {members} : (∀ s ∈ members, PredicateFree s) → PredicateFree (.allOf members)
  | refined {base} : PredicateFree base → PredicateFree (.refined base none)

theorem PredicateFree.bare_eq {s : Schema} (h : s.PredicateFree) : s.bare = s := by
  have map_self {schemas : List Schema} (h : ∀ s ∈ schemas, s.bare = s) :
      schemas.map Schema.bare = schemas :=
    (List.map_congr_left h).trans (List.map_id schemas)
  induction h with
  | primitive => rfl
  | literal => rfl
  | @shape fields _ ih =>
    have hfields : ∀ f ∈ fields, f.bare = f := fun f hf => Field.bare_eq (ih f hf)
    rw [bare_shape, List.map_congr_left hfields, List.map_id']
  | arrayOf _ ih => rw [bare, ih]
  | mapOf _ ih => rw [bare, ih]
  | anyOf _ ih => rw [bare_anyOf, map_self ih]
  | allOf _ ih => rw [bare_allOf, map_self ih]
  | refined _ ih => rw [bare, ih]

theorem wellNamed_of_bare {s : Schema} (h : s.bare.WellNamed) : s.WellNamed := by
  induction s with
  | primitive => exact .primitive
  | literal => exact .literal
  | shape fields ih =>
    rw [bare_shape] at h
    cases h with
    | shape hnames hfields =>
      rw [names_map_bare] at hnames
      exact .shape hnames fun f hf => ih f hf (List.forall_mem_map.1 hfields f hf)
  | arrayOf items ih =>
    cases h with
    | arrayOf h => exact .arrayOf (ih h)
  | mapOf values ih =>
    cases h with
    | mapOf h => exact .mapOf (ih h)
  | anyOf variants ih =>
    rw [bare_anyOf] at h
    cases h with
    | anyOf h => exact .anyOf fun s hs => ih s hs (List.forall_mem_map.1 h s hs)
  | allOf members ih =>
    rw [bare_allOf] at h
    cases h with
    | allOf h => exact .allOf fun s hs => ih s hs (List.forall_mem_map.1 h s hs)
  | refined base predicate ih =>
    cases h with
    | refined h => exact .refined (ih h)

theorem widens_bare (s : Schema) : s.Widens s.bare := by
  induction s with
  | primitive => exact .refl _
  | literal => exact .refl _
  | shape fields ih =>
    rw [bare_shape]
    exact .shape (matched_map fun f hf => ⟨rfl, id, ih f hf⟩)
  | arrayOf items ih => exact ih.arrayOf
  | mapOf values ih => exact ih.mapOf
  | anyOf variants ih =>
    rw [bare_anyOf]
    exact .anyOf (matched_map ih).forth
  | allOf members ih =>
    rw [bare_allOf]
    exact .allOf (matched_map ih)
  | refined base predicate ih => exact ih.refined nofun

theorem Accepts.bare {mode : Mode} {s : Schema} {v : Json} (h : Accepts mode s v) :
    Accepts mode s.bare v :=
  s.widens_bare.accepts h

end Schema

def ViolationKind.isCustom : ViolationKind → Bool
  | .customValidationFailed | .customValidationError => true
  | _ => false

theorem Violation.OfAbsence.isCustom_asMissing {e : Violation} (h : e.OfAbsence [])
    (segment : Segment) : (e.under segment).asMissing.kind.isCustom = false := by
  rcases h.asMissing_eq segment with ⟨_, _, heq⟩ | ⟨_, heq⟩ <;> rw [heq] <;> rfl

namespace Schema

open Inspection

theorem isCustom_of_each_key {allowed : Option (List String)} {entries : List (String × Json)}
    {e : Violation} (h : (each (fun p => key allowed p.1) entries).outcome = .error e) :
    e.kind.isCustom = false := by
  obtain ⟨_, p, _, _, _, hp⟩ := each_outcome_eq_error.1 h
  rcases key_outcome_eq_error.1 hp with ⟨_, rfl⟩ | ⟨_, _, rfl⟩ <;> rfl

theorem PredicateFree.isCustom_eq_false {s : Schema} (h : s.PredicateFree) {mode : Mode} {v : Json}
    {e : Violation} (he : (s.inspect mode (some v)).outcome = .error e) :
    e.kind.isCustom = false := by
  induction h generalizing mode v e with
  | primitive | literal =>
    rw [inspect] at he
    split at he <;> cases he
    rfl
  | @shape fields _ ih =>
    cases v with
    | obj entries =>
      rw [inspect_shape_obj, andThen_outcome_eq_error] at he
      rcases he with he | ⟨_, he⟩
      · obtain ⟨before, f, after, rfl, _, hf⟩ := each_outcome_eq_error.1 he
        obtain ⟨_, ⟨w, e', _, he', rfl⟩ | ⟨e', _, _, he', rfl⟩⟩ :=
          Field.inspect_outcome_eq_error.1 hf
        · have hfield := ih f (by simp) he'
          exact hfield
        · exact (ofAbsence_of_inspect_none he').isCustom_asMissing _
      · exact isCustom_of_each_key he
    | _ =>
      cases he
      rfl
  | arrayOf _ ih =>
    cases v with
    | arr values =>
      obtain ⟨_, _, _, e', _, _, he', rfl⟩ := inspect_arrayOf_outcome_eq_error.1 he
      have hitem := ih he'
      exact hitem
    | _ =>
      cases he
      rfl
  | mapOf _ ih =>
    cases v with
    | obj entries =>
      rw [inspect_mapOf_obj] at he
      obtain ⟨_, _, _, _, _, hp⟩ := each_outcome_eq_error.1 he
      obtain ⟨e', he', rfl⟩ := under_outcome_eq_error.1 hp
      have hvalue := ih he'
      exact hvalue
    | _ =>
      cases he
      rfl
  | anyOf =>
    -- what a variant reports is dropped
    rcases inspect_anyOf_outcome_eq_error he with ⟨_, rfl⟩ | ⟨_, rfl⟩ <;> rfl
  | @allOf members _ ih =>
    by_cases hmembers : Intersects members
    · rw [inspect_allOf hmembers, andThen_outcome_eq_error] at he
      rcases he with he | ⟨_, he⟩
      · obtain ⟨_, m, _, rfl, _, hm⟩ := each_outcome_eq_error.1 he
        exact ih m (by simp) hm
      · cases mode with
        | lenient => cases he
        | strict =>
          cases v with
          | obj entries => exact isCustom_of_each_key he
          | _ => cases he
    · obtain ⟨reason, hfail⟩ := inspect_allOf_of_not_intersects hmembers mode (some v)
      rw [hfail] at he
      cases he
      rfl
  | refined _ ih =>
    rw [inspect, andThen_outcome_eq_error] at he
    rcases he with he | ⟨_, he⟩
    · exact ih he
    · cases he

end Schema

end ApiContract
