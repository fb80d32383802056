import ApiContract.Proofs.Lists
import ApiContract.Proofs.Schema.Widening

namespace ApiContract.Schema

inductive Reorders : Schema → Schema → Prop
  | shape {fields fields'} : List.Perm fields fields' → Reorders (.shape fields) (.shape fields')
  | anyOf {variants variants'} : List.Perm variants variants' →
    Reorders (.anyOf variants) (.anyOf variants')
  | allOf {members members'} : List.Perm members members' →
    Reorders (.allOf members) (.allOf members')

variable {s s' : Schema}

theorem Reorders.symm (h : Reorders s s') : Reorders s' s := by
  cases h with
  | shape h => exact .shape h.symm
  | anyOf h => exact .anyOf h.symm
  | allOf h => exact .allOf h.symm

instance : Std.Symm (Within Reorders) :=
  ⟨fun _ _ h => h.symm Reorders.symm⟩

theorem Reorders.widens (h : Reorders s s') : s.Widens s' := by
  cases h with
  | shape h => exact .shape (matched_of_perm .refl h)
  | anyOf h => exact .anyOf (matched_of_perm .refl h).forth
  | allOf h => exact .allOf (matched_of_perm .refl h)

theorem declaredNames_shape (fields : List Field) :
    (Schema.shape fields).declaredNames =
      (Field.names fields).filter fun name => !Identifier.isMeta name := by
  rw [declaredNames, Field.declared, Field.names, Field.names, List.filter_map]
  rfl

theorem declaredNamesList_perm {schemas schemas' : List Schema} (h : schemas.Perm schemas') :
    (declaredNamesList schemas).Perm (declaredNamesList schemas') := by
  simp only [declaredNamesList_eq_flatMap]
  exact h.flatMap_right declaredNames

theorem declaredNamesList_replace_perm {before after : List Schema}
    (h : s.declaredNames.Perm s'.declaredNames) :
    (declaredNamesList (before ++ s :: after)).Perm
      (declaredNamesList (before ++ s' :: after)) := by
  simp only [declaredNamesList_eq_flatMap, List.flatMap_append, List.flatMap_cons]
  exact (h.append_right _).append_left _

theorem Reorders.declaredNames_perm (h : Reorders s s') :
    s.declaredNames.Perm s'.declaredNames := by
  cases h with
  | shape h => exact (h.filter _).map _
  | anyOf h => exact eraseDups_perm (declaredNamesList_perm h)
  | allOf h => exact eraseDups_perm (declaredNamesList_perm h)

theorem Within.declaredNames_perm (h : Within Reorders s s') :
    s.declaredNames.Perm s'.declaredNames := by
  induction h with
  | here h => exact h.declaredNames_perm
  | shape => simp [declaredNames_shape, Field.names]
  | arrayOf => exact .refl _
  | mapOf => exact .refl _
  | anyOf _ ih => exact eraseDups_perm (declaredNamesList_replace_perm ih)
  | allOf _ ih => exact eraseDups_perm (declaredNamesList_replace_perm ih)
  | refined _ ih => exact ih

/-- The order of fields, variants and members, at any depth, affects neither acceptance nor the set
of declared names. -/
theorem validate_eq_ok_iff_of_reordered (h : Relation.ReflTransGen (Within Reorders) s s') :
    (∀ mode v, s.validate mode v = .ok () ↔ s'.validate mode v = .ok ()) ∧
      s.declaredNames.Perm s'.declaredNames := by
  constructor
  · intro mode v
    have hback : Relation.ReflTransGen (Within Reorders) s' s := Std.Symm.symm _ _ h
    rw [validate_eq_ok, validate_eq_ok]
    constructor
    · exact (widens_of_changes Reorders.widens h).accepts
    · exact (widens_of_changes Reorders.widens hback).accepts
  · induction h with
    | refl => exact .refl _
    | tail _ h ih => exact ih.trans h.declaredNames_perm

theorem validate_eq_ok_iff_of_reordered_union :
    let a : Field := ⟨"a", false, .string⟩
    let b : Field := ⟨"b", false, .string⟩
    let s : Schema := .allOf [.anyOf [.shape [a], .shape [a, b]], .mapOf .string]
    let s' : Schema := .allOf [.mapOf .string, .anyOf [.shape [b, a], .shape [a]]]
    Relation.ReflTransGen (Within Reorders) s s' ∧
      (∀ mode v, s.validate mode v = .ok () ↔ s'.validate mode v = .ok ()) ∧
      s.declaredNames = ["a", "b"] ∧ s'.declaredNames = ["b", "a"] ∧
      s.declaredNames.Perm s'.declaredNames := by
  intro a b s s'
  have hreordered : Relation.ReflTransGen (Within Reorders) s s' := by
    refine .head (.here (.allOf (.swap _ _ _))) ?_
    refine .head (@Within.allOf _ [_] [] _ _ (.here (.anyOf (.swap _ _ _)))) ?_
    exact .single (@Within.allOf _ [_] [] _ _
      (@Within.anyOf _ [] [_] _ _ (.here (.shape (.swap _ _ _)))))
  obtain ⟨haccepted, hdeclared⟩ := validate_eq_ok_iff_of_reordered hreordered
  exact ⟨hreordered, haccepted, by cbv, by cbv, hdeclared⟩

end ApiContract.Schema
