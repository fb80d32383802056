import ApiContract.Proofs.Schema.Footprint

namespace ApiContract.Schema

/-- Accepted leniently without any shape looking at the keys. -/
inductive Overlooks (entries : List (String × Json)) : Schema → Prop
  | mapOf {values} : (∀ p ∈ entries, Accepts .lenient values p.2) →
    Overlooks entries (.mapOf values)
  | anyOf {variants s} : s ∈ variants → Overlooks entries s → Overlooks entries (.anyOf variants)
  | allOf {members} : members ≠ [] → (∀ s ∈ members, Overlooks entries s) →
    Overlooks entries (.allOf members)
  | refined {base predicate} : Overlooks entries base →
    (∀ p, predicate = some p → p.verdict (.obj entries) = .accept) →
    Overlooks entries (.refined base predicate)

section Overlooks

variable {s : Schema} {entries : List (String × Json)}

theorem Overlooks.isScalar (h : Overlooks entries s) : s.isScalar = false := by
  cases h <;> rfl

theorem Overlooks.accepts (h : Overlooks entries s) : Accepts .lenient s (.obj entries) := by
  induction h with
  | mapOf h => exact .mapOf h
  | anyOf hs _ ih => exact .anyOf hs ih
  | allOf hne h ih =>
    apply Accepts.allOf hne
    · exact fun s hs => (h s hs).isScalar
    · exact ih
    · intro hstrict
      cases hstrict
  | refined _ hp ih => exact accepts_refined_iff.2 ⟨ih, hp⟩

theorem Accepts.overlooks (hmeta : ∃ p ∈ entries, Identifier.isMeta p.1 = true)
    (h : Accepts .lenient s (.obj entries)) : Overlooks entries s := by
  -- a shape refuses meta keys in every mode, so a map has taken in the one accepted here
  induction s with
  | primitive | literal | arrayOf => cases h
  | shape fields =>
    obtain ⟨p, hp, hmeta⟩ := hmeta
    rw [((accepts_shape_iff.1 h).2 p hp).1] at hmeta
    cases hmeta
  | mapOf values =>
    cases h with
    | mapOf h => exact .mapOf h
  | anyOf variants ih =>
    obtain ⟨s, hs, h⟩ := accepts_anyOf_iff.1 h
    exact .anyOf hs (ih s hs h)
  | allOf members ih =>
    obtain ⟨hmembers, h, _⟩ := accepts_allOf_iff.1 h
    exact .allOf hmembers.1 fun s hs => ih s hs (h s hs)
  | refined base predicate ih =>
    obtain ⟨h, hp⟩ := accepts_refined_iff.1 h
    exact .refined (ih h) hp

theorem Overlooks.reaches_mapOf (h : Overlooks entries s) :
    ∃ values, Reaches facets s (.mapOf values) := by
  induction h with
  | @mapOf values => exact ⟨values, .refl⟩
  | anyOf hs _ ih =>
    obtain ⟨values, hreaches⟩ := ih
    exact ⟨values, hreaches.head hs⟩
  | @allOf members hne _ ih =>
    obtain ⟨s, hs⟩ := List.exists_mem_of_ne_nil members hne
    obtain ⟨values, hreaches⟩ := ih s hs
    exact ⟨values, hreaches.head hs⟩
  | @refined base _ _ _ ih =>
    obtain ⟨values, hreaches⟩ := ih
    exact ⟨values, hreaches.head (List.mem_singleton_self base)⟩

end Overlooks

theorem validate_fails_iff {s : Schema} {mode : Mode} {v : Json} :
    (∃ e, s.validate mode v = .error e) ↔ ¬Accepts mode s v := by
  rw [← validate_eq_ok]
  cases s.validate mode v <;> simp

theorem not_accepts_allOf_strict {members : List Schema} {entries : List (String × Json)}
    (hmeta : ∃ p ∈ entries, Identifier.isMeta p.1 = true) :
    ¬Accepts .strict (.allOf members) (.obj entries) := by
  intro h
  obtain ⟨p, hp, hmeta⟩ := hmeta
  have hdeclared := (accepts_allOf_iff.1 h).2.2 rfl entries rfl p hp
  rw [not_isMeta_of_mem_declaredNamesList hdeclared] at hmeta
  cases hmeta

/-- An intersection refuses meta keys strictly, and leniently unless each member passes the object
on to a map. -/
theorem allOf_refuses_meta_keys (members : List Schema) {entries : List (String × Json)}
    (hmeta : ∃ p ∈ entries, Identifier.isMeta p.1 = true) :
    (∃ e, (Schema.allOf members).validate .strict (.obj entries) = .error e) ∧
      ((∃ e, (Schema.allOf members).validate .lenient (.obj entries) = .error e) ↔
        ¬Overlooks entries (.allOf members)) ∧
      ((∃ s ∈ members, ∀ values, ¬Reaches facets s (.mapOf values)) →
        ∀ mode, ∃ e, (Schema.allOf members).validate mode (.obj entries) = .error e) := by
  have hlenient : Accepts .lenient (.allOf members) (.obj entries) ↔
      Overlooks entries (.allOf members) := ⟨Accepts.overlooks hmeta, Overlooks.accepts⟩
  simp only [validate_fails_iff]
  refine ⟨not_accepts_allOf_strict hmeta, not_congr hlenient, ?_⟩
  rintro ⟨s, hs, hmap⟩ mode
  cases mode with
  | strict => exact not_accepts_allOf_strict hmeta
  | lenient =>
    intro h
    cases hlenient.1 h with
    | allOf _ hmembers =>
      obtain ⟨values, hreaches⟩ := (hmembers s hs).reaches_mapOf
      exact hmap values hreaches

theorem allOf_refuses_meta_keys_beside_map :
    let members : List Schema := [.mapOf .string, .anyOf [.shape [], .arrayOf (.mapOf .string)]]
    let entries : List (String × Json) := [("$a", .str "x")]
    (∃ p ∈ entries, Identifier.isMeta p.1 = true) ∧
      (∃ s ∈ members, ∀ values, ¬Reaches facets s (.mapOf values)) ∧
      ∀ mode, ∃ e, (Schema.allOf members).validate mode (.obj entries) = .error e := by
  intro members entries
  have hmeta : ∃ p ∈ entries, Identifier.isMeta p.1 = true :=
    ⟨("$a", .str "x"), List.mem_singleton_self _, by decide⟩
  have hmap : ∃ s ∈ members, ∀ values, ¬Reaches facets s (.mapOf values) := by
    refine ⟨.anyOf [.shape [], .arrayOf (.mapOf .string)], by simp [members], ?_⟩
    simp [facets, reaches_iff (s := .anyOf _), reaches_iff (s := .shape _),
      reaches_iff (s := .arrayOf _)]
  exact ⟨hmeta, hmap, (allOf_refuses_meta_keys members hmeta).2.2 hmap⟩

theorem allOf_of_map_accepts_meta_key :
    let members : List Schema := [.mapOf .string]
    let entries : List (String × Json) := [("$a", .str "x")]
    (∃ p ∈ entries, Identifier.isMeta p.1 = true) ∧
      ¬∀ mode, ∃ e, (Schema.allOf members).validate mode (.obj entries) = .error e := by
  intro members entries
  refine ⟨⟨("$a", .str "x"), List.mem_singleton_self _, by decide⟩, ?_⟩
  intro h
  obtain ⟨e, he⟩ := h .lenient
  cases he

end ApiContract.Schema
