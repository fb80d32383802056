import ApiContract.Proofs.Schema.Acceptance

namespace ApiContract

namespace Inspection

theorem fail_orElse (kind : ViolationKind) (reason : Reason) (second : Unit → Inspection) :
    (fail kind reason).orElse second = second () := rfl

theorem orElse_assoc (first : Inspection) (second third : Unit → Inspection) :
    (first.orElse second).orElse third = first.orElse fun _ => (second ()).orElse third := by
  cases hfirst : first.outcome with
  | ok => simp [orElse, hfirst]
  | error => cases hsecond : (second ()).outcome <;> simp [orElse, hfirst, hsecond]

end Inspection

namespace Schema

open Inspection

theorem inspectVariants_append (variants variants' : List Schema) (mode : Mode)
    (found : Option Json) :
    inspectVariants (variants ++ variants') mode found =
      (inspectVariants variants mode found).orElse fun _ =>
        inspectVariants variants' mode found := by
  induction variants with
  | nil => rw [List.nil_append, inspectVariants, fail_orElse]
  | cons s rest ih => rw [List.cons_append, inspectVariants, inspectVariants, orElse_assoc, ih]

theorem inspectVariants_anyOf {nested : List Schema} (h : nested ≠ []) (mode : Mode)
    (found : Option Json) :
    inspectVariants [.anyOf nested] mode found = inspectVariants nested mode found := by
  rw [inspectVariants, inspect_anyOf h, ← inspectVariants_append, List.append_nil]

theorem inspect_anyOf_nested {nested : List Schema} (h : nested ≠ []) (before after : List Schema)
    (mode : Mode) (found : Option Json) :
    (Schema.anyOf (before ++ [Schema.anyOf nested] ++ after)).inspect mode found =
      (Schema.anyOf (before ++ nested ++ after)).inspect mode found := by
  rw [inspect_anyOf (by simp), inspect_anyOf (by simp [h])]
  simp only [inspectVariants_append, inspectVariants_anyOf h]

def Suitable (v : Json) (members : List Schema) : Prop :=
  ∀ s ∈ members, s.isScalar = false ∧ Accepts .lenient s v

variable {mode : Mode} {v : Json}

theorem suitable_append {members members' : List Schema} :
    Suitable v (members ++ members') ↔ Suitable v members ∧ Suitable v members' :=
  List.forall_mem_append

theorem accepts_allOf_iff_suitable {members : List Schema} :
    Accepts mode (.allOf members) v ↔ members ≠ [] ∧ Suitable v members ∧
      (mode = .strict → ∀ entries, v = .obj entries → ∀ p ∈ entries,
        p.1 ∈ declaredNamesList members) := by
  rw [accepts_allOf_iff, Intersects, Suitable, and_assoc, and_congr_right_iff]
  intro _
  rw [← and_assoc]
  apply and_congr_left'
  exact forall₂_and.symm

theorem suitable_allOf {nested : List Schema} (h : nested ≠ []) :
    Suitable v [.allOf nested] ↔ Suitable v nested := by
  rw [Suitable, List.forall_mem_singleton, accepts_allOf_iff_suitable]
  simp [h, isScalar]

theorem suitable_anyOf {variants : List Schema} :
    Suitable v [.anyOf variants] ↔ ∃ s ∈ variants, Accepts .lenient s v := by
  rw [Suitable, List.forall_mem_singleton, accepts_anyOf_iff]
  simp [isScalar]

theorem Accepts.replace {before members members' after : List Schema}
    (h : Accepts mode (.allOf (before ++ members ++ after)) v) (hne : members' ≠ [])
    (hsuitable : Suitable v members → Suitable v members')
    (hnames : mode = .strict → declaredNamesList members ⊆ declaredNamesList members') :
    Accepts mode (.allOf (before ++ members' ++ after)) v := by
  rw [accepts_allOf_iff_suitable] at h ⊢
  obtain ⟨_, hmembers, hkeys⟩ := h
  refine ⟨by simp [hne], ?_, ?_⟩
  · rw [suitable_append, suitable_append] at hmembers ⊢
    exact ⟨⟨hmembers.1.1, hsuitable hmembers.1.2⟩, hmembers.2⟩
  · intro hstrict entries hv p hp
    have hp := hkeys hstrict entries hv p hp
    simp only [declaredNamesList_eq_flatMap, List.flatMap_append, List.mem_append] at hp hnames ⊢
    exact hp.imp_left (Or.imp_right fun hp => hnames hstrict hp)

theorem mem_declaredNamesList_allOf {name : String} {nested : List Schema} :
    name ∈ declaredNamesList [.allOf nested] ↔ name ∈ declaredNamesList nested := by
  simp [mem_declaredNamesList, mem_declaredNames_allOf]

theorem accepts_allOf_nested {before nested after : List Schema} (h : nested ≠ []) :
    Accepts mode (.allOf (before ++ [Schema.allOf nested] ++ after)) v ↔
      Accepts mode (.allOf (before ++ nested ++ after)) v := by
  constructor
  · intro haccepts
    apply haccepts.replace h (suitable_allOf h).1
    exact fun _ name hname => mem_declaredNamesList_allOf.1 hname
  · intro haccepts
    apply haccepts.replace (List.cons_ne_nil _ _) (suitable_allOf h).2
    exact fun _ name hname => mem_declaredNamesList_allOf.2 hname

/-- Nested unions can be flattened, and so can nested intersections. -/
theorem nested_combinators_flatten (before after : List Schema) {nested : List Schema}
    (h : nested ≠ []) (mode : Mode) (v : Json) :
    (Schema.anyOf (before ++ [Schema.anyOf nested] ++ after)).validate mode v =
        (Schema.anyOf (before ++ nested ++ after)).validate mode v ∧
      ((Schema.allOf (before ++ [Schema.allOf nested] ++ after)).validate mode v = .ok () ↔
        (Schema.allOf (before ++ nested ++ after)).validate mode v = .ok ()) := by
  constructor
  · rw [validate_eq, validate_eq, inspect_anyOf_nested h]
  · rw [validate_eq_ok, validate_eq_ok]
    exact accepts_allOf_nested h

theorem nested_combinators_flatten_two :
    let a : Schema := .shape [⟨"a", false, .string⟩]
    let nested : List Schema := [.shape [⟨"b", true, .string⟩], .mapOf .string]
    let v : Json := .obj [("a", .str "x"), ("b", .str "y")]
    nested ≠ [] ∧
      (Schema.anyOf ([a] ++ [Schema.anyOf nested] ++ [])).validate .strict .null =
        .error ⟨.unionExhausted, [], .noVariant (some .null)⟩ ∧
      (Schema.allOf ([a] ++ [Schema.allOf nested] ++ [])).validate .strict v = .ok () := by
  intro a nested v
  have hne : nested ≠ [] := List.cons_ne_nil _ _
  refine ⟨hne, ?_, ?_⟩
  · rw [(nested_combinators_flatten [a] [] hne .strict .null).1]
    cbv
  · rw [(nested_combinators_flatten [a] [] hne .strict v).2]
    cbv

theorem Accepts.allOf_of_variant {before variants after : List Schema} {s : Schema}
    (hs : s ∈ variants) (h : Accepts mode (.allOf (before ++ [s] ++ after)) v) :
    Accepts mode (.allOf (before ++ [Schema.anyOf variants] ++ after)) v := by
  apply h.replace (List.cons_ne_nil _ _)
  · intro hsuitable
    exact suitable_anyOf.2 ⟨s, hs, (List.forall_mem_singleton.1 hsuitable).2⟩
  · intro _ name hname
    simp only [mem_declaredNamesList, List.mem_singleton, exists_eq_left] at hname ⊢
    exact mem_declaredNames_anyOf.2 ⟨s, hs, hname⟩

theorem Accepts.exists_variant {before variants after : List Schema}
    (h : Accepts .lenient (.allOf (before ++ [Schema.anyOf variants] ++ after)) v)
    (hscalar : ∀ s ∈ variants, s.isScalar = false) :
    ∃ s ∈ variants, Accepts .lenient (.allOf (before ++ [s] ++ after)) v := by
  have hsuitable : Suitable v (before ++ [Schema.anyOf variants] ++ after) :=
    (accepts_allOf_iff_suitable.1 h).2.1
  rw [suitable_append, suitable_append] at hsuitable
  obtain ⟨s, hs, haccepts⟩ := suitable_anyOf.1 hsuitable.1.2
  -- no keys are compared with names in lenient mode, so those of the other variants are not missed
  refine ⟨s, hs, h.replace (List.cons_ne_nil _ _) ?_ nofun⟩
  intro _
  exact List.forall_mem_singleton.2 ⟨hscalar s hs, haccepts⟩

theorem validate_anyOf_map_eq_ok {variants : List Schema} {f : Schema → Schema} :
    (Schema.anyOf (variants.map f)).validate mode v = .ok () ↔
      ∃ s ∈ variants, Accepts mode (f s) v := by
  rw [validate_eq_ok, accepts_anyOf_iff]
  simp

/-- An intersection distributes over a union in lenient mode. In strict mode it may accept more than
the union of intersections, since it counts the names of all variants. -/
theorem intersection_over_union (before variants after : List Schema) (v : Json) :
    let factored : Schema := .allOf (before ++ [Schema.anyOf variants] ++ after)
    let distributed : Schema := .anyOf (variants.map fun s => .allOf (before ++ [s] ++ after))
    (∀ mode, distributed.validate mode v = .ok () → factored.validate mode v = .ok ()) ∧
      ((∀ s ∈ variants, s.isScalar = false) →
        (factored.validate .lenient v = .ok () ↔ distributed.validate .lenient v = .ok ())) := by
  intro factored distributed
  have hfactored : ∀ mode, distributed.validate mode v = .ok () →
      factored.validate mode v = .ok () := by
    intro mode h
    obtain ⟨s, hs, h⟩ := validate_anyOf_map_eq_ok.1 h
    exact validate_eq_ok.2 (h.allOf_of_variant hs)
  refine ⟨hfactored, fun hscalar => ⟨fun h => ?_, hfactored .lenient⟩⟩
  exact validate_anyOf_map_eq_ok.2 ((validate_eq_ok.1 h).exists_variant hscalar)

theorem intersection_over_union_two_shapes :
    let before : List Schema := [.shape [⟨"id", false, .string⟩]]
    let variants : List Schema := [.shape [⟨"a", true, .number⟩], .shape [⟨"b", false, .string⟩]]
    let factored : Schema := .allOf (before ++ [Schema.anyOf variants] ++ [])
    let distributed : Schema := .anyOf (variants.map fun s => .allOf (before ++ [s] ++ []))
    let v : Json := .obj [("b", .str "x"), ("id", .str "y")]
    let w : Json := .obj [("a", .null), ("b", .str "x"), ("id", .str "y")]
    (∀ s ∈ variants, s.isScalar = false) ∧
      distributed.validate .strict v = .ok () ∧ factored.validate .strict v = .ok () ∧
      factored.validate .lenient w = .ok () ∧ distributed.validate .lenient w = .ok () ∧
      factored.validate .strict w = .ok () ∧
      distributed.validate .strict w = .error ⟨.unionExhausted, [], .noVariant (some w)⟩ := by
  intro before variants factored distributed v w
  have hscalar : ∀ s ∈ variants, s.isScalar = false := by
    simp [variants, isScalar]
  have hv : distributed.validate .strict v = .ok () := by cbv
  have hw : factored.validate .lenient w = .ok () := by cbv
  exact ⟨hscalar, hv, (intersection_over_union before variants [] v).1 .strict hv, hw,
    ((intersection_over_union before variants [] w).2 hscalar).1 hw, by cbv, by cbv⟩

end Schema

end ApiContract
