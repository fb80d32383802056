import ApiContract.Schema.Basic

namespace ApiContract.Schema

@[elab_as_elim, induction_eliminator]
theorem induction {motive : Schema → Prop}
    (primitive : ∀ p, motive (.primitive p))
    (literal : ∀ l, motive (.literal l))
    (shape : ∀ fields : List Field, (∀ f ∈ fields, motive f.schema) → motive (.shape fields))
    (arrayOf : ∀ items, motive items → motive (.arrayOf items))
    (mapOf : ∀ values, motive values → motive (.mapOf values))
    (anyOf : ∀ variants : List Schema, (∀ s ∈ variants, motive s) → motive (.anyOf variants))
    (allOf : ∀ members : List Schema, (∀ s ∈ members, motive s) → motive (.allOf members))
    (refined : ∀ base predicate, motive base → motive (.refined base predicate))
    (s : Schema) : motive s :=
  @Schema.rec motive (fun f => motive f.schema) (fun fields => ∀ f ∈ fields, motive f.schema)
    (fun schemas => ∀ s ∈ schemas, motive s) primitive literal shape arrayOf mapOf anyOf allOf
    refined (fun _ _ _ h => h) (List.forall_mem_nil _)
    (fun _ _ h hs => List.forall_mem_cons.2 ⟨h, hs⟩) (List.forall_mem_nil _)
    (fun _ _ h hs => List.forall_mem_cons.2 ⟨h, hs⟩) s

theorem mem_declared {fields : List Field} {f : Field} :
    f ∈ Field.declared fields ↔ f ∈ fields ∧ f.isMeta = false := by
  simp [Field.declared]

theorem declaredNamesList_eq_flatMap (schemas : List Schema) :
    declaredNamesList schemas = schemas.flatMap declaredNames := by
  induction schemas with
  | nil => rfl
  | cons s rest ih => rw [declaredNamesList, ih, List.flatMap_cons]

theorem mem_declaredNamesList {name : String} {schemas : List Schema} :
    name ∈ declaredNamesList schemas ↔ ∃ s ∈ schemas, name ∈ s.declaredNames := by
  induction schemas with
  | nil => simp [declaredNamesList]
  | cons s rest ih => simp [declaredNamesList, ih]

theorem mem_declaredNames_anyOf {name : String} {variants : List Schema} :
    name ∈ (Schema.anyOf variants).declaredNames ↔ ∃ s ∈ variants, name ∈ s.declaredNames := by
  rw [declaredNames, List.mem_eraseDups, mem_declaredNamesList]

theorem mem_declaredNames_allOf {name : String} {members : List Schema} :
    name ∈ (Schema.allOf members).declaredNames ↔ ∃ s ∈ members, name ∈ s.declaredNames := by
  rw [declaredNames, List.mem_eraseDups, mem_declaredNamesList]

theorem not_isMeta_of_mem_declaredNames {name : String} {s : Schema}
    (h : name ∈ s.declaredNames) : Identifier.isMeta name = false := by
  induction s with
  | primitive => simp [declaredNames] at h
  | literal => simp [declaredNames] at h
  | arrayOf => simp [declaredNames] at h
  | mapOf => simp [declaredNames] at h
  | shape fields ih =>
    simp only [declaredNames, Field.names, Field.declared, List.mem_map, List.mem_filter] at h
    obtain ⟨f, ⟨_, hf⟩, rfl⟩ := h
    simpa [Field.isMeta] using hf
  | anyOf variants ih =>
    obtain ⟨s, hs, h⟩ := mem_declaredNames_anyOf.1 h
    exact ih s hs h
  | allOf members ih =>
    obtain ⟨s, hs, h⟩ := mem_declaredNames_allOf.1 h
    exact ih s hs h
  | refined base predicate ih => exact ih (by simpa [declaredNames] using h)

theorem not_isMeta_of_mem_declaredNamesList {name : String} {schemas : List Schema}
    (h : name ∈ declaredNamesList schemas) : Identifier.isMeta name = false := by
  obtain ⟨s, _, h⟩ := mem_declaredNamesList.1 h
  exact not_isMeta_of_mem_declaredNames h

end ApiContract.Schema
