import ApiContract.Template

namespace ApiContract

def TemplatePart.paramName? : TemplatePart → Option String
  | .param name => some name
  | _ => none

namespace Template

theorem wildcardName_injective : Function.Injective wildcardName := by
  have hdigits {n : Nat} {digits : List Char} (h : toString n = String.ofList digits) :
      n = Nat.ofDigitChars 10 digits 0 := by
    rw [← String.ofList_injective h, Nat.ofDigitChars_ten_toDigits]
  have hfirst (n : Nat) : "wildcard" ≠ "wildcard" ++ toString (n + 1) := by
    intro h
    have hempty := (String.append_right_inj "wildcard").1 (String.append_empty.trans h)
    exact Nat.succ_ne_zero n (hdigits hempty.symm)
  intro m n h
  unfold wildcardName at h
  split at h <;> split at h
  · omega
  · exact absurd h (hfirst n)
  · exact absurd h.symm (hfirst m)
  · have hnumber := hdigits ((String.append_right_inj _).1 h)
    rw [Nat.ofDigitChars_ten_toDigits] at hnumber
    omega

theorem piecesFrom_arguments_perm (wildcards : Nat) (parts : List TemplatePart) :
    ((piecesFrom wildcards parts).filterMap Piece.argumentName?).Perm
      (parts.filterMap TemplatePart.paramName? ++
        (List.range' wildcards (parts.count .wildcard)).map wildcardName) := by
  induction parts generalizing wildcards with
  | nil => exact .refl _
  | cons part rest ih =>
    have hrest := ih wildcards
    cases part with
    | text t =>
      simpa [piecesFrom, Piece.argumentName?, TemplatePart.paramName?, List.filterMap_cons]
    | separator =>
      simpa [piecesFrom, Piece.argumentName?, TemplatePart.paramName?, List.filterMap_cons]
    | param name =>
      simpa [piecesFrom, Piece.argumentName?, TemplatePart.paramName?, List.filterMap_cons]
    | wildcard =>
      simp only [piecesFrom, Piece.argumentName?, TemplatePart.paramName?, List.filterMap_cons,
        List.count_cons_self, List.range'_succ, List.map_cons]
      exact ((ih (wildcards + 1)).cons _).trans List.perm_middle.symm

theorem parameterNames_perm (parts : List TemplatePart) :
    (parameterNames parts).Perm (parts.filterMap TemplatePart.paramName? ++
      (List.range (parts.count .wildcard)).map wildcardName) := by
  rw [List.range_eq_range']
  exact piecesFrom_arguments_perm 0 parts

theorem param_wildcardName_not_mem {parts : List TemplatePart} (h : (parameterNames parts).Nodup)
    {i : Nat} (hi : i < parts.count .wildcard) : .param (wildcardName i) ∉ parts := by
  intro hmem
  have hnodup := (parameterNames_perm parts).nodup_iff.1 h
  refine (List.nodup_append.1 hnodup).2.2 (wildcardName i) ?_ (wildcardName i) ?_ rfl
  · exact List.mem_filterMap.2 ⟨_, hmem, rfl⟩
  · exact List.mem_map.2 ⟨i, List.mem_range.2 hi, rfl⟩

theorem nodup_wildcardNames (n : Nat) : ((List.range n).map wildcardName).Nodup :=
  List.pairwise_map.2 (List.nodup_range.imp fun hne => wildcardName_injective.ne hne)

end Template

end ApiContract
