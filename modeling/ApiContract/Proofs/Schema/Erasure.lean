import ApiContract.Proofs.Schema.Outcome
import ApiContract.Proofs.TypeText.Meaning

namespace ApiContract

namespace Schema

mutual

def rebuild (keep : String → Bool) (wrap : Schema → Option Predicate → Schema) : Schema → Schema
  | .primitive p => .primitive p
  | .literal l => .literal l
  | .shape fields => .shape (rebuildFields keep wrap fields)
  | .arrayOf items => .arrayOf (items.rebuild keep wrap)
  | .mapOf values => .mapOf (values.rebuild keep wrap)
  | .anyOf variants => .anyOf (rebuildList keep wrap variants)
  | .allOf members => .allOf (rebuildList keep wrap members)
  | .refined base predicate => wrap (base.rebuild keep wrap) predicate
termination_by structural s => s

def rebuildFields (keep : String → Bool) (wrap : Schema → Option Predicate → Schema) :
    List Field → List Field
  | [] => []
  | ⟨name, optional, schema⟩ :: rest =>
    if keep name then
      ⟨name, optional, schema.rebuild keep wrap⟩ :: rebuildFields keep wrap rest
    else
      rebuildFields keep wrap rest
termination_by structural fields => fields

def rebuildList (keep : String → Bool) (wrap : Schema → Option Predicate → Schema) :
    List Schema → List Schema
  | [] => []
  | s :: rest => s.rebuild keep wrap :: rebuildList keep wrap rest
termination_by structural schemas => schemas

end

def withoutMeta : Schema → Schema :=
  rebuild (fun name => !Identifier.isMeta name) .refined

def withoutRefinements : Schema → Schema :=
  rebuild (fun _ => true) fun base _ => base

end Schema

theorem map_map_of_forall {α β : Type} {f : α → α} {g : α → β} {as : List α}
    (h : ∀ a ∈ as, g (f a) = g a) : (as.map f).map g = as.map g := by
  rw [List.map_map]
  exact List.map_congr_left h

section Rebuild

variable {keep : String → Bool} {wrap : Schema → Option Predicate → Schema}

def Field.rebuild (keep : String → Bool) (wrap : Schema → Option Predicate → Schema)
    (f : Field) : Field :=
  { f with schema := f.schema.rebuild keep wrap }

@[simp] theorem Field.names_map_rebuild (fields : List Field) :
    names (fields.map (Field.rebuild keep wrap)) = names fields := by
  simp [names, Field.rebuild]

namespace Schema

open Inspection

theorem rebuild_shape (fields : List Field) :
    (Schema.shape fields).rebuild keep wrap =
      .shape ((fields.filter (keep ·.name)).map (Field.rebuild keep wrap)) := by
  rw [rebuild]
  congr 1
  induction fields with
  | nil => rfl
  | cons f rest ih =>
    obtain ⟨name, optional, schema⟩ := f
    cases h : keep name <;> simp [rebuildFields, Field.rebuild, h, ih]

theorem rebuildList_eq_map (schemas : List Schema) :
    rebuildList keep wrap schemas = schemas.map (rebuild keep wrap) := by
  induction schemas with
  | nil => rfl
  | cons s rest ih => rw [rebuildList, ih, List.map_cons]

theorem rebuild_anyOf (variants : List Schema) :
    (Schema.anyOf variants).rebuild keep wrap = .anyOf (variants.map (rebuild keep wrap)) := by
  rw [rebuild, rebuildList_eq_map]

theorem rebuild_allOf (members : List Schema) :
    (Schema.allOf members).rebuild keep wrap = .allOf (members.map (rebuild keep wrap)) := by
  rw [rebuild, rebuildList_eq_map]

theorem declaredNamesList_map {f : Schema → Schema} {schemas : List Schema}
    (h : ∀ s ∈ schemas, (f s).declaredNames = s.declaredNames) :
    declaredNamesList (schemas.map f) = declaredNamesList schemas := by
  rw [declaredNamesList_eq_flatMap, declaredNamesList_eq_flatMap, List.flatMap_map]
  exact List.flatMap_congr h

theorem inspectVariants_map {f : Schema → Schema} {variants : List Schema} {mode : Mode}
    {found : Option Json} (h : ∀ s ∈ variants, (f s).inspect mode found = s.inspect mode found) :
    inspectVariants (variants.map f) mode found = inspectVariants variants mode found := by
  induction variants with
  | nil => rfl
  | cons s rest ih =>
    obtain ⟨hs, hrest⟩ := List.forall_mem_cons.1 h
    rw [List.map_cons, inspectVariants, inspectVariants, hs, ih hrest]

def KeepsDeclared (keep : String → Bool) : Prop :=
  ∀ name, Identifier.isMeta name = false → keep name = true

theorem declared_rebuild (hkeep : KeepsDeclared keep) (fields : List Field) :
    Field.declared ((fields.filter (keep ·.name)).map (Field.rebuild keep wrap)) =
      (Field.declared fields).map (Field.rebuild keep wrap) := by
  have hdeclared (f : Field) : ((!f.isMeta) && keep f.name) = !f.isMeta := by
    cases hf : f.isMeta with
    | true => rfl
    | false => simp [hkeep f.name hf]
  rw [Field.declared, Field.declared, List.filter_map, List.filter_filter]
  congr 1
  exact List.filter_congr fun f _ => hdeclared f

structure KeepsType (keep : String → Bool) (wrap : Schema → Option Predicate → Schema) : Prop where
  declared : KeepsDeclared keep
  compound : ∀ base predicate i, (wrap base predicate).isCompound i = base.isCompound i
  typeText : ∀ base predicate, (wrap base predicate).typeText = base.typeText

theorem keepsType_refined (hkeep : KeepsDeclared keep) : KeepsType keep .refined :=
  ⟨hkeep, fun _ _ _ => rfl, fun _ _ => rfl⟩

theorem isCompound_rebuild (h : KeepsType keep wrap) (intersections : Bool) (s : Schema) :
    (s.rebuild keep wrap).isCompound intersections = s.isCompound intersections := by
  induction s with
  | primitive | literal | shape | arrayOf | mapOf => rfl
  | anyOf variants => rw [rebuild_anyOf, isCompound, isCompound, List.length_map]
  | allOf members => rw [rebuild_allOf, isCompound, isCompound, List.length_map]
  | refined base predicate ih => rw [rebuild, h.compound, ih, isCompound]

theorem typeText_rebuild (h : KeepsType keep wrap) (s : Schema) :
    (s.rebuild keep wrap).typeText = s.typeText := by
  induction s with
  | primitive | literal => rfl
  | shape fields ih =>
    have hfield : ∀ f ∈ Field.declared fields, fieldText (f.rebuild keep wrap) = fieldText f := by
      intro f hf
      rw [fieldText, fieldText, Field.rebuild, ih f (mem_declared.1 hf).1]
    rw [rebuild_shape, typeText, typeText, fieldTexts_eq_map, fieldTexts_eq_map,
      declared_rebuild h.declared, map_map_of_forall hfield]
  | arrayOf items ih => rw [rebuild, typeText, typeText, ih, isCompound_rebuild h]
  | mapOf values ih => rw [rebuild, typeText, typeText, ih]
  | anyOf variants ih =>
    rw [rebuild_anyOf, typeText, typeText, variantTexts_eq_map, variantTexts_eq_map,
      map_map_of_forall ih]
  | allOf members ih =>
    rw [rebuild_allOf, typeText, typeText, memberTexts_eq_map, memberTexts_eq_map,
      map_map_of_forall fun s hs => ?_]
    rw [isCompound_rebuild h, ih s hs]
  | refined base predicate ih => rw [rebuild, h.typeText, ih, typeText]

theorem declaredNames_rebuild (hkeep : KeepsDeclared keep) (s : Schema) :
    (s.rebuild keep .refined).declaredNames = s.declaredNames := by
  induction s with
  | primitive | literal | arrayOf | mapOf => rfl
  | shape fields =>
    rw [rebuild_shape, declaredNames, declaredNames, declared_rebuild hkeep,
      Field.names_map_rebuild]
  | anyOf variants ih =>
    rw [rebuild_anyOf, declaredNames, declaredNames, declaredNamesList_map ih]
  | allOf members ih =>
    rw [rebuild_allOf, declaredNames, declaredNames, declaredNamesList_map ih]
  | refined base predicate ih => exact ih

theorem each_field_rebuild (hkeep : KeepsDeclared keep) {fields : List Field} {mode : Mode}
    {entries : List (String × Json)} (h : ∀ f ∈ fields, ∀ found,
      (f.schema.rebuild keep .refined).inspect mode found = f.schema.inspect mode found) :
    each (fun f => f.inspect mode entries)
        ((fields.filter (keep ·.name)).map (Field.rebuild keep .refined)) =
      each (fun f => f.inspect mode entries) fields := by
  have hfield : ∀ f ∈ fields.filter (keep ·.name),
      (f.rebuild keep .refined).inspect mode entries = f.inspect mode entries := by
    intro f hf
    obtain ⟨name, optional, schema⟩ := f
    simp only [Field.inspect, Field.rebuild, Field.isMeta, h _ (List.mem_of_mem_filter hf)]
  have hpass : ∀ f ∈ fields, keep f.name = false → f.inspect mode entries = pass := by
    intro f _ hdropped
    have hmeta : f.isMeta = true := by
      by_contra hdeclared
      simp [hkeep f.name (by simpa [Field.isMeta] using hdeclared)] at hdropped
    rw [Field.inspect, if_pos hmeta]
  rw [each_map, each_congr hfield, each_filter hpass]

theorem inspect_rebuild (hkeep : KeepsDeclared keep) (s : Schema) (mode : Mode)
    (found : Option Json) :
    (s.rebuild keep .refined).inspect mode found = s.inspect mode found := by
  induction s generalizing mode found with
  | primitive | literal => rfl
  | shape fields ih =>
    rw [rebuild_shape]
    cases found with
    | none => rfl
    | some v =>
      cases v with
      | obj entries =>
        rw [inspect_shape_obj, inspect_shape_obj, declared_rebuild hkeep, Field.names_map_rebuild,
          each_field_rebuild hkeep fun f hf => ih f hf mode]
      | _ => rfl
  | arrayOf items ih => simp only [rebuild, inspect, ih]
  | mapOf values ih => simp only [rebuild, inspect, ih]
  | anyOf variants ih =>
    rw [rebuild_anyOf, inspect, inspect, List.isEmpty_map,
      inspectVariants_map fun s hs => ih s hs mode found]
  | allOf members ih =>
    have hmembers : inspectMembers (members.map (rebuild keep .refined)) found =
        inspectMembers members found := by
      rw [inspectMembers_eq_each, inspectMembers_eq_each, each_map]
      exact each_congr fun s hs => ih s hs .lenient found
    have hscalar (s : Schema) : (s.rebuild keep .refined).isScalar = s.isScalar := by
      cases s <;> rfl
    have hfind : (members.map (rebuild keep .refined)).find? isScalar =
        (members.find? isScalar).map (rebuild keep .refined) := by
      rw [List.find?_map]
      congr 2
      exact funext hscalar
    rw [rebuild_allOf]
    unfold inspect
    rw [List.isEmpty_map, hfind, hmembers,
      declaredNamesList_map fun s _ => declaredNames_rebuild hkeep s]
    split
    · rfl
    · cases members.find? isScalar with
      | none => rfl
      | some scalar =>
        have htype := typeText_rebuild (keepsType_refined hkeep) scalar
        exact congrArg (fun type => fail .schemaAuthoring (.scalarMember type)) htype
  | refined base predicate ih => rw [rebuild, inspect, inspect, ih]

end Schema

end Rebuild

namespace Schema

theorem keepsDeclared_not_isMeta : KeepsDeclared fun name => !Identifier.isMeta name := by
  simp [KeepsDeclared]

theorem typeText_withoutMeta (s : Schema) : s.withoutMeta.typeText = s.typeText :=
  typeText_rebuild (keepsType_refined keepsDeclared_not_isMeta) s

theorem declaredNames_withoutMeta (s : Schema) : s.withoutMeta.declaredNames = s.declaredNames :=
  declaredNames_rebuild keepsDeclared_not_isMeta s

theorem inspect_withoutMeta (s : Schema) : s.withoutMeta.inspect = s.inspect := by
  funext mode found
  exact inspect_rebuild keepsDeclared_not_isMeta s mode found

theorem typeText_withoutRefinements (s : Schema) : s.withoutRefinements.typeText = s.typeText :=
  typeText_rebuild ⟨fun _ _ => rfl, fun _ _ _ => rfl, fun _ _ => rfl⟩ s

/-- Meta fields are invisible to validation, types and declared names, and refinements to types. -/
theorem meta_fields_make_no_difference :
    (∀ s s' : Schema, s.withoutMeta = s'.withoutMeta →
        (∀ mode v, s.validate mode v = s'.validate mode v) ∧ s.typeText = s'.typeText ∧
          s.declaredNames = s'.declaredNames) ∧
      ∀ s : Schema, s.withoutRefinements.typeText = s.typeText := by
  constructor
  · intro s s' h
    refine ⟨fun mode v => ?_, ?_, ?_⟩
    · rw [validate_eq, validate_eq, ← inspect_withoutMeta s, h, inspect_withoutMeta]
    · rw [← typeText_withoutMeta s, h, typeText_withoutMeta]
    · rw [← declaredNames_withoutMeta s, h, declaredNames_withoutMeta]
  · exact typeText_withoutRefinements

theorem meta_fields_make_no_difference_in_intersection :
    let id : Field := ⟨"id", false, .string⟩
    let s : Schema := .allOf [.shape [⟨"$id", false, .null⟩, id], .shape [⟨"$a", true, .anyOf []⟩]]
    let s' : Schema := .allOf [.shape [id, ⟨"$note", false, .string⟩], .shape []]
    s.withoutMeta = s'.withoutMeta ∧ (∀ mode v, s.validate mode v = s'.validate mode v) ∧
      s.typeText = s'.typeText ∧ s.declaredNames = s'.declaredNames := by
  intro id s s'
  have h : s.withoutMeta = s'.withoutMeta := by rfl
  exact ⟨h, meta_fields_make_no_difference.1 s s' h⟩

end Schema

end ApiContract
