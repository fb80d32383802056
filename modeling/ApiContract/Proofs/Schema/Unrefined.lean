import ApiContract.Proofs.Schema.Reordering

/-!
Refinements without a predicate. Such a refinement inspects what its base inspects, and almost
everywhere inside another schema the two make no difference. The one place that tells them apart is
an intersection: it refuses scalar members by their form, and a refinement hides that form.
-/

namespace ApiContract

namespace Inspection

theorem andThen_pass (i : Inspection) : (i.andThen fun _ => pass) = i := by
  obtain ⟨calls, outcome⟩ := i
  cases outcome with
  | error => rfl
  | ok => exact congrArg (Inspection.mk · _) (List.append_nil calls)

theorem each_replace {α : Type} {f : α → Inspection} {a b : α} (h : f a = f b)
    (before after : List α) :
    each f (before ++ a :: after) = each f (before ++ b :: after) := by
  induction before with
  | nil => rw [List.nil_append, List.nil_append, each, each, h]
  | cons c before ih => rw [List.cons_append, List.cons_append, each, each, ih]

end Inspection

namespace Schema

open Inspection

/-- No inspection distinguishes the two schemas, and they declare the same names. -/
structure Alike (s s' : Schema) : Prop where
  inspect : s'.inspect = s.inspect
  declaredNames : s'.declaredNames = s.declaredNames

variable {s s' b : Schema}

theorem alike_unrefined (b : Schema) : Alike b (.refined b none) := by
  refine ⟨?_, rfl⟩
  funext mode found
  exact andThen_pass (b.inspect mode found)

namespace Alike

theorem declaredNamesList_replace (h : Alike s s') (before after : List Schema) :
    declaredNamesList (before ++ s' :: after) = declaredNamesList (before ++ s :: after) := by
  simp only [declaredNamesList_eq_flatMap, List.flatMap_append, List.flatMap_cons, h.declaredNames]

theorem shape (h : Alike s s') (name : String) (optional : Bool) (before after : List Field) :
    Alike (.shape (before ++ ⟨name, optional, s⟩ :: after))
      (.shape (before ++ ⟨name, optional, s'⟩ :: after)) := by
  have hnames : Field.names (Field.declared (before ++ ⟨name, optional, s'⟩ :: after)) =
      Field.names (Field.declared (before ++ ⟨name, optional, s⟩ :: after)) := by
    refine (declaredNames_shape _).trans (.trans ?_ (declaredNames_shape _).symm)
    simp [Field.names]
  refine ⟨?_, hnames⟩
  funext mode found
  cases found with
  | none => rfl
  | some v =>
    cases v with
    | obj entries =>
      have hfield : (Field.mk name optional s').inspect mode entries =
          (Field.mk name optional s).inspect mode entries := by
        simp only [Field.inspect, Field.isMeta, h.inspect]
      rw [inspect_shape_obj, inspect_shape_obj, hnames,
        each_replace (f := fun field => Field.inspect field mode entries) hfield]
    | _ => rfl

theorem arrayOf (h : Alike s s') : Alike (.arrayOf s) (.arrayOf s') := by
  refine ⟨?_, rfl⟩
  funext mode found
  simp only [Schema.inspect, h.inspect]

theorem mapOf (h : Alike s s') : Alike (.mapOf s) (.mapOf s') := by
  refine ⟨?_, rfl⟩
  funext mode found
  simp only [Schema.inspect, h.inspect]

theorem refined (h : Alike s s') (predicate : Option Predicate) :
    Alike (.refined s predicate) (.refined s' predicate) := by
  refine ⟨?_, h.declaredNames⟩
  funext mode found
  rw [Schema.inspect, Schema.inspect, h.inspect]

theorem anyOf (h : Alike s s') (before after : List Schema) :
    Alike (.anyOf (before ++ s :: after)) (.anyOf (before ++ s' :: after)) := by
  constructor
  · funext mode found
    rw [inspect_anyOf (by simp), inspect_anyOf (by simp)]
    induction before with
    | nil => rw [List.nil_append, List.nil_append, inspectVariants, inspectVariants, h.inspect]
    | cons t before ih =>
      rw [List.cons_append, List.cons_append, inspectVariants, inspectVariants, ih]
  · rw [Schema.declaredNames, Schema.declaredNames, h.declaredNamesList_replace]

theorem allOf (h : Alike s s') {before after : List Schema}
    (hscalar : (before ++ s' :: after).find? isScalar = (before ++ s :: after).find? isScalar) :
    Alike (.allOf (before ++ s :: after)) (.allOf (before ++ s' :: after)) := by
  -- an intersection looks for a scalar member before it checks any of them
  constructor
  · funext mode found
    have hmembers : inspectMembers (before ++ s' :: after) found =
        inspectMembers (before ++ s :: after) found := by
      rw [inspectMembers_eq_each, inspectMembers_eq_each]
      exact each_replace (congrFun (congrFun h.inspect .lenient) found) before after
    unfold Schema.inspect
    rw [hscalar, hmembers, h.declaredNamesList_replace]
    simp
  · rw [Schema.declaredNames, Schema.declaredNames, h.declaredNamesList_replace]

end Alike

inductive Wraps (b : Schema) : Schema → Schema → Prop
  | base : Wraps b b (.refined b none)

inductive HidesScalar (b : Schema) : Schema → Schema → Prop
  | member {before after} : b.isScalar = true → (∀ s ∈ before, s.isScalar = false) →
    HidesScalar b (.allOf (before ++ b :: after)) (.allOf (before ++ .refined b none :: after))

theorem Within.isScalar_of_wraps (h : Within (Wraps b) s s') : s'.isScalar = false := by
  cases h with
  | here h => cases h; rfl
  | _ => rfl

theorem Within.eq_of_isScalar (h : Within (Wraps b) s s') (hs : s.isScalar = true) :
    s = b ∧ s' = .refined b none := by
  cases h with
  | here h => cases h; exact ⟨rfl, rfl⟩
  | _ => cases hs

theorem Within.alike_or_hidesScalar (h : Within (Wraps b) s s') :
    Alike s s' ∨ Within (HidesScalar b) s s' := by
  induction h with
  | here h =>
    cases h
    exact .inl (alike_unrefined b)
  | shape _ ih => exact ih.imp (·.shape _ _ _ _) .shape
  | arrayOf _ ih => exact ih.imp .arrayOf .arrayOf
  | mapOf _ ih => exact ih.imp .mapOf .mapOf
  | anyOf _ ih => exact ih.imp (·.anyOf _ _) .anyOf
  | refined _ ih => exact ih.imp (·.refined _) .refined
  | @allOf before after s s' h ih =>
    refine ih.elim (fun halike => ?_) (fun hhides => .inr (.allOf hhides))
    by_cases hbefore : ∀ t ∈ before, t.isScalar = false
    · cases hs : s.isScalar with
      | true =>
        obtain ⟨rfl, rfl⟩ := h.eq_of_isScalar hs
        exact .inr (.here (.member hs hbefore))
      | false =>
        refine .inl (halike.allOf ?_)
        simp [List.find?_append, hs, h.isScalar_of_wraps]
    · -- the scalar member in front is found with and without the refinement
      refine .inl (halike.allOf ?_)
      have hfind : (before.find? isScalar).isSome := by simpa using hbefore
      rw [List.find?_append, List.find?_append, Option.or_of_isSome hfind,
        Option.or_of_isSome hfind]

theorem Within.isScalar_of_hidesScalar (h : Within (HidesScalar b) s s') : b.isScalar = true := by
  induction h with
  | here h => cases h with | member hb _ => exact hb
  | shape _ ih | arrayOf _ ih | mapOf _ ih | anyOf _ ih | allOf _ ih | refined _ ih => exact ih

theorem HidesScalar.validate_eq (h : HidesScalar b s s') (mode : Mode) (v : Json) :
    s.validate mode v = .error ⟨.schemaAuthoring, [], .scalarMember b.typeText⟩ := by
  cases h with
  | @member before after hb hbefore =>
    have hfind : (before ++ b :: after).find? isScalar = some b := by
      rw [List.find?_append, List.find?_eq_none.2 (by simpa using hbefore),
        List.find?_cons_of_pos hb, Option.none_or]
    simp [validate_eq, inspect, hfind]

theorem inspect_of_isScalar (hb : b.isScalar = true) (mode mode' : Mode) :
    b.inspect mode = b.inspect mode' := by
  cases b with
  | primitive | literal => rfl
  | _ => cases hb

theorem Accepts.inspectKeys_eq_pass {mode mode' : Mode} {v : Json} (h : Accepts mode b v)
    (hb : b.isScalar = true) (members : List Schema) :
    inspectKeys members mode' (some v) = pass := by
  -- a scalar accepts no object, so there are no keys to compare
  cases b with
  | primitive | literal => cases h <;> cases mode' <;> rfl
  | _ => cases hb

theorem validate_allOf_unrefined (hb : b.isScalar = true) (mode : Mode) (v : Json) :
    (Schema.allOf [.refined b none]).validate mode v = b.validate mode v := by
  have hmembers : Intersects [.refined b none] := ⟨by simp, by simp [isScalar]⟩
  rw [validate_eq, validate_eq, inspect_allOf hmembers, each, each, andThen_pass,
    (alike_unrefined b).inspect, inspect_of_isScalar hb .lenient mode]
  cases hv : (b.inspect mode (some v)).outcome with
  | error e => simp [andThen, hv]
  | ok => rw [(inspect_outcome_eq_ok.1 hv).inspectKeys_eq_pass hb, andThen_pass, hv]

theorem validate_ne_schemaAuthoring (hb : b.isScalar = true) (mode : Mode) (v : Json)
    (reason : Reason) : b.validate mode v ≠ .error ⟨.schemaAuthoring, [], reason⟩ := by
  cases b with
  | primitive | literal =>
    rw [validate_eq, inspect]
    split <;> simp
  | _ => cases hb

/-- A refinement without a predicate behaves like its base everywhere inside a schema, unless the
base is the first scalar member of an intersection. -/
theorem unrefined_behaves_like_base (b : Schema) :
    (∀ s s', Within (Wraps b) s s' → ¬Within (HidesScalar b) s s' →
        ∀ mode v, s'.validate mode v = s.validate mode v) ∧
      ((∀ s s', Within (Wraps b) s s' → ∀ mode v, s'.validate mode v = s.validate mode v) ↔
        b.isScalar = false) := by
  have hsame : ∀ s s', Within (Wraps b) s s' → ¬Within (HidesScalar b) s s' →
      ∀ mode v, s'.validate mode v = s.validate mode v := by
    intro s s' h hhides mode v
    have halike : Alike s s' := h.alike_or_hidesScalar.resolve_right hhides
    rw [validate_eq, validate_eq, halike.inspect]
  refine ⟨hsame, ⟨fun hall => ?_, fun hb s s' h => ?_⟩⟩
  · by_contra hnot
    have hb : b.isScalar = true := by simpa using hnot
    have hsingle := hall _ _ (@Within.allOf _ [] [] _ _ (.here (.base (b := b)))) .strict .null
    have hhides : HidesScalar b (.allOf [b]) (.allOf [.refined b none]) :=
      @HidesScalar.member b [] [] hb (List.forall_mem_nil _)
    rw [List.nil_append, List.nil_append, validate_allOf_unrefined hb,
      hhides.validate_eq] at hsingle
    exact validate_ne_schemaAuthoring hb _ _ _ hsingle
  · apply hsame s s' h
    intro hhides
    rw [hhides.isScalar_of_hidesScalar] at hb
    cases hb

theorem unrefined_behaves_like_base_of_shape :
    Schema.isScalar (.shape []) = false ∧
      (Schema.allOf [Schema.mapOf Schema.string, .refined (.shape []) none]).validate .strict
          (.obj [("a", .str "x")]) =
        (Schema.allOf [Schema.mapOf Schema.string, .shape []]).validate .strict
          (.obj [("a", .str "x")]) :=
  ⟨rfl, (unrefined_behaves_like_base (.shape [])).2.2 rfl _ _
    (@Within.allOf _ [Schema.mapOf Schema.string] [] _ _ (.here .base)) .strict _⟩

theorem unrefined_scalar_in_intersection :
    Within (Wraps Schema.string) (.allOf [Schema.string]) (.allOf [.refined Schema.string none]) ∧
      (Schema.allOf [Schema.string]).validate .strict (.str "x") =
        .error ⟨.schemaAuthoring, [], .scalarMember "string"⟩ ∧
      (Schema.allOf [.refined Schema.string none]).validate .strict (.str "x") = .ok () :=
  ⟨@Within.allOf _ [] [] _ _ (.here .base), rfl, rfl⟩

end Schema

end ApiContract
