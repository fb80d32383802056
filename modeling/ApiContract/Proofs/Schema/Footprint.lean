import ApiContract.Proofs.Lists
import ApiContract.Proofs.Schema.Strictness

namespace ApiContract.Schema

def facets : Schema → List Schema
  | .refined base _ => [base]
  | .anyOf variants => variants
  | .allOf members => members
  | _ => []

def alternatives : Schema → List Schema
  | .allOf _ => []
  | s => s.facets

def Reaches (parts : Schema → List Schema) : Schema → Schema → Prop :=
  Relation.ReflTransGen fun s t => t ∈ parts s

section Reaches

variable {parts : Schema → List Schema} {s t u : Schema}

theorem reaches_iff : Reaches parts s u ↔ s = u ∨ ∃ t ∈ parts s, Reaches parts t u := by
  rw [Reaches, Relation.ReflTransGen.cases_head_iff]

theorem not_reaches_of_mem (h : ¬Reaches parts s u) (ht : t ∈ parts s) : ¬Reaches parts t u := by
  intro hu
  apply h
  exact hu.head ht

theorem Reaches.facets_of_alternatives (h : Reaches alternatives s t) : Reaches facets s t := by
  refine Relation.ReflTransGen.mono ?_ s t h
  intro s t ht
  cases s with
  | allOf members => cases ht
  | _ => exact ht

theorem facet_induction {motive : Schema → Prop}
    (step : ∀ s, (∀ t ∈ facets s, motive t) → motive s) (s : Schema) : motive s := by
  induction s with
  | anyOf variants ih => exact step _ ih
  | allOf members ih => exact step _ ih
  | refined base predicate ih => exact step _ (List.forall_mem_singleton.2 ih)
  | _ => exact step _ (List.forall_mem_nil _)

theorem declaredNames_subset_of_mem_facets (h : t ∈ facets s) :
    t.declaredNames ⊆ s.declaredNames := by
  intro name hname
  cases s with
  | anyOf variants => exact mem_declaredNames_anyOf.2 ⟨t, h, hname⟩
  | allOf members => exact mem_declaredNames_allOf.2 ⟨t, h, hname⟩
  | refined base predicate =>
    rw [facets, List.mem_singleton] at h
    rwa [declaredNames, ← h]
  | _ => cases h

end Reaches

theorem Accepts.mem_declaredNames {s : Schema} {entries : List (String × Json)}
    (h : Accepts .strict s (.obj entries))
    (hmap : ∀ values, ¬Reaches alternatives s (.mapOf values)) {p : String × Json}
    (hp : p ∈ entries) : p.1 ∈ s.declaredNames := by
  induction s with
  | primitive | literal | arrayOf => cases h
  | mapOf values => exact absurd .refl (hmap values)
  | shape fields => exact ((accepts_shape_iff.1 h).2 p hp).2 rfl
  | anyOf variants ih =>
    cases h with
    | @anyOf _ _ s _ hs h =>
      apply declaredNames_subset_of_mem_facets hs
      exact ih s hs h fun values => not_reaches_of_mem (hmap values) hs
  | allOf members =>
    -- a strict intersection looks at the keys itself, so its members may be maps
    rw [declaredNames, List.mem_eraseDups]
    exact (accepts_allOf_iff.1 h).2.2 rfl entries rfl p hp
  | refined base predicate ih =>
    apply ih (accepts_refined_iff.1 h).1
    intro values
    exact not_reaches_of_mem (hmap values) (List.mem_singleton_self base)

/-- Equal values under `names`, and a meta key in both objects or in neither. -/
structure Agree (names : List String) (entries entries' : List (String × Json)) : Prop where
  lookup : ∀ name ∈ names, entries.lookup name = entries'.lookup name
  noMeta : (∀ p ∈ entries, Identifier.isMeta p.1 = false) ↔
    ∀ p ∈ entries', Identifier.isMeta p.1 = false

section Agree

variable {names names' : List String} {entries entries' : List (String × Json)} {k : String}

theorem Agree.symm (h : Agree names entries entries') : Agree names entries' entries :=
  ⟨fun name hname => (h.lookup name hname).symm, h.noMeta.symm⟩

theorem Agree.mono (h : Agree names entries entries') (hnames : names' ⊆ names) :
    Agree names' entries entries' :=
  ⟨fun name hname => h.lookup name (hnames hname), h.noMeta⟩

theorem agree_filter_ne (hk : k ∉ names) (hmeta : Identifier.isMeta k = false) :
    Agree names entries (entries.filter (·.1 != k)) := by
  constructor
  · intro name hname
    have hkept : ∀ v : Json, (name != k) = true := fun _ =>
      bne_iff_ne.2 (ne_of_mem_of_not_mem hname hk)
    exact (lookup_filter hkept entries).symm
  · constructor
    · intro h p hp
      exact h p (List.mem_of_mem_filter hp)
    · intro h p hp
      by_cases hkey : p.1 = k
      · rw [hkey, hmeta]
      · exact h p (List.mem_filter.2 ⟨hp, by simpa using hkey⟩)

theorem Accepts.of_agree {s : Schema} (h : Accepts .lenient s (.obj entries))
    (hmap : ∀ values, ¬Reaches facets s (.mapOf values))
    (hfree : ∀ base p, ¬Reaches facets s (.refined base (some p)))
    (hagree : Agree s.declaredNames entries entries') : Accepts .lenient s (.obj entries') := by
  induction s using facet_induction with
  | step s ih =>
    have hfacets : ∀ t ∈ facets s, Accepts .lenient t (.obj entries) →
        Accepts .lenient t (.obj entries') := by
      intro t ht h
      apply ih t ht h
      · exact fun values => not_reaches_of_mem (hmap values) ht
      · exact fun base p => not_reaches_of_mem (hfree base p) ht
      · exact hagree.mono (declaredNames_subset_of_mem_facets ht)
    cases s with
    | primitive | literal | arrayOf => cases h
    | mapOf values => exact absurd .refl (hmap values)
    | shape fields =>
      rw [accepts_shape_iff] at h ⊢
      constructor
      · intro f hf hm
        have hdeclared : f.name ∈ (Schema.shape fields).declaredNames := by
          simpa [declaredNames, Field.names, Field.declared] using ⟨f, ⟨hf, hm⟩, rfl⟩
        rw [AcceptsField, ← hagree.lookup f.name hdeclared]
        exact h.1 f hf hm
      · intro p hp
        refine ⟨hagree.noMeta.1 (fun p hp => (h.2 p hp).1) p hp, ?_⟩
        intro hstrict
        cases hstrict
    | anyOf variants =>
      cases h with
      | @anyOf _ _ s _ hs h => exact .anyOf hs (hfacets s hs h)
    | allOf members =>
      rw [accepts_allOf_iff] at h ⊢
      refine ⟨h.1, fun s hs => hfacets s hs (h.2.1 s hs), ?_⟩
      intro hstrict
      cases hstrict
    | refined base predicate =>
      cases h with
      | unrefined h => exact .unrefined (hfacets base (List.mem_singleton_self base) h)
      | refined => exact absurd .refl (hfree _ _)

end Agree

/-- For a schema that passes its value on to no map, the declared names are all keys that it lets in
strictly and, without predicates, all keys that count leniently. -/
theorem declaredNames_footprint {s : Schema} (hmap : ∀ values, ¬Reaches facets s (.mapOf values)) :
    (∀ entries, s.validate .strict (.obj entries) = .ok () →
        ∀ p ∈ entries, p.1 ∈ s.declaredNames) ∧
      ((∀ base p, ¬Reaches facets s (.refined base (some p))) →
        ∀ entries k, k ∉ s.declaredNames → Identifier.isMeta k = false →
          (s.validate .lenient (.obj entries) = .ok () ↔
            s.validate .lenient (.obj (entries.filter (·.1 != k))) = .ok ())) := by
  constructor
  · intro entries h p hp
    apply (validate_eq_ok.1 h).mem_declaredNames _ hp
    exact fun values hreaches => hmap values hreaches.facets_of_alternatives
  · intro hfree entries k hk hmeta
    have hagree : Agree s.declaredNames entries (entries.filter (·.1 != k)) :=
      agree_filter_ne hk hmeta
    rw [validate_eq_ok, validate_eq_ok]
    constructor
    · exact fun h => h.of_agree hmap hfree hagree
    · exact fun h => h.of_agree hmap hfree hagree.symm

theorem declaredNames_footprint_nested :
    let inner : Schema := .anyOf [.shape [⟨"c", true, .mapOf .string⟩], .arrayOf (.mapOf .null)]
    let s : Schema := .refined (.anyOf [.shape [⟨"a", false, .number⟩],
      .allOf [.shape [⟨"b", false, .string⟩], inner]]) none
    let entries : List (String × Json) := [("b", .str "x"), ("c", .obj [("d", .str "y")])]
    let more : List (String × Json) := entries ++ [("e", .null)]
    ((∀ values, ¬Reaches facets s (.mapOf values)) ∧
        ∀ base p, ¬Reaches facets s (.refined base (some p))) ∧
      s.declaredNames = ["a", "b", "c"] ∧ s.validate .strict (.obj entries) = .ok () ∧
      (∀ p ∈ entries, p.1 ∈ s.declaredNames) ∧
      more.filter (·.1 != "e") = entries ∧
      (s.validate .lenient (.obj more) = .ok () ↔ s.validate .lenient (.obj entries) = .ok ()) := by
  intro inner s entries more
  have hreaches : (∀ values, ¬Reaches facets s (.mapOf values)) ∧
      ∀ base p, ¬Reaches facets s (.refined base (some p)) := by
    simp [s, inner, facets, reaches_iff (s := .refined _ _), reaches_iff (s := .anyOf _),
      reaches_iff (s := .allOf _), reaches_iff (s := .shape _), reaches_iff (s := .arrayOf _)]
  have hnames : s.declaredNames = ["a", "b", "c"] := by cbv
  have hstrict : s.validate .strict (.obj entries) = .ok () := by cbv
  have hother : "e" ∉ s.declaredNames := by
    rw [hnames]
    decide
  have hfilter : more.filter (·.1 != "e") = entries := by simp [more, entries]
  obtain ⟨hkeys, hlenient⟩ := declaredNames_footprint hreaches.1
  have hsame := hlenient hreaches.2 more "e" hother (by decide)
  rw [hfilter] at hsame
  exact ⟨hreaches, hnames, hstrict, hkeys entries hstrict, hfilter, hsame⟩

/-- An intersection accepts what all members accept, provided that one of them admits declared keys
only. -/
theorem validate_allOf_of_forall_members {members : List Schema} {mode : Mode} {v : Json}
    (hscalar : ∀ s ∈ members, s.isScalar = false)
    (hmap : ∃ s ∈ members, ∀ values, ¬Reaches alternatives s (.mapOf values))
    (h : ∀ s ∈ members, s.validate mode v = .ok ()) :
    (Schema.allOf members).validate mode v = .ok () := by
  obtain ⟨bound, hbound, hmap⟩ := hmap
  have haccepts : ∀ s ∈ members, Accepts mode s v :=
    fun s hs => validate_eq_ok.1 (h s hs)
  rw [validate_eq_ok, accepts_allOf_iff]
  refine ⟨⟨List.ne_nil_of_mem hbound, hscalar⟩, fun s hs => (haccepts s hs).lenient, ?_⟩
  rintro rfl entries rfl p hp
  rw [mem_declaredNamesList]
  exact ⟨bound, hbound, (haccepts bound hbound).mem_declaredNames hmap hp⟩

theorem validate_allOf_of_forall_members_map :
    let p : Predicate := ⟨"any", fun _ => .accept⟩
    let bound : Schema := .refined (.anyOf [.null, .allOf [.shape [⟨"a", true, .string⟩],
      .mapOf .string]]) (some p)
    let members : List Schema := [.mapOf .string, bound]
    let v : Json := .obj [("a", .str "x")]
    (∀ s ∈ members, s.isScalar = false) ∧
      (∃ s ∈ members, ∀ values, ¬Reaches alternatives s (.mapOf values)) ∧
      (∀ s ∈ members, s.validate .strict v = .ok ()) ∧
      (Schema.allOf members).validate .strict v = .ok () := by
  intro p bound members v
  have hscalar : ∀ s ∈ members, s.isScalar = false := by
    simp [members, bound, isScalar]
  have hmap : ∃ s ∈ members, ∀ values, ¬Reaches alternatives s (.mapOf values) := by
    refine ⟨bound, by simp [members], ?_⟩
    simp [bound, alternatives, facets, null, reaches_iff (s := .refined _ _),
      reaches_iff (s := .anyOf _), reaches_iff (s := .allOf _), reaches_iff (s := .primitive _)]
  have hmembers : ∀ s ∈ members, s.validate .strict v = .ok () := by
    exact List.forall_mem_cons.2 ⟨by cbv, List.forall_mem_singleton.2 (by cbv)⟩
  exact ⟨hscalar, hmap, hmembers, validate_allOf_of_forall_members hscalar hmap hmembers⟩

end ApiContract.Schema
