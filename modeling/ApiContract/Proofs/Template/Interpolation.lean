import ApiContract.Proofs.Template.Arguments
import ApiContract.Proofs.Template.Canonical
import ApiContract.Proofs.Template.Literal

namespace ApiContract

namespace Template

def LiteralPart.value (env : String → String) : LiteralPart → String
  | .char c => String.singleton c
  | .placeholder name => env name

end Template

def TemplatePart.value (env : String → String) (wildcards : Nat) : TemplatePart → String
  | .text t => t
  | .separator => "/"
  | .param name => env name
  | .wildcard => env (Template.wildcardName wildcards)

namespace Template

theorem Canonical.exists_fits {parts : List TemplatePart} {p : TemplatePart} (h : Canonical parts)
    (hp : p ∈ parts) : ∃ rest, Fits p rest := by
  induction h with
  | nil => cases hp
  | @cons q rest hfits _ ih =>
    rcases List.mem_cons.1 hp with rfl | hp
    · exact ⟨rest, hfits⟩
    · exact ih hp

theorem isName_wildcardName (n : Nat) : IsName (wildcardName n) := by
  have hword : ∀ c ∈ "wildcard".toList, isNameChar c = true := by
    rw [← List.all_eq_true]
    decide
  unfold wildcardName
  split
  · exact ⟨by decide, hword⟩
  · refine ⟨by simp, ?_⟩
    rw [String.toList_append]
    refine List.forall_mem_append.2 ⟨hword, fun c hc => ?_⟩
    rw [Nat.toString_eq_ofList_toDigits, String.toList_ofList] at hc
    have hdigit : c.isDigit = true := Nat.isDigit_of_mem_toDigits (by decide) (by decide) hc
    simp [isNameChar, Char.isAlphanum, hdigit]

theorem Canonical.isName_of_mem_parameterNames {parts : List TemplatePart} (h : Canonical parts)
    {name : String} (hname : name ∈ parameterNames parts) : IsName name := by
  rw [(parameterNames_perm parts).mem_iff, List.mem_append] at hname
  rcases hname with hname | hname
  · obtain ⟨p, hp, hparam⟩ := List.mem_filterMap.1 hname
    cases p with
    | param n =>
      cases hparam
      obtain ⟨_, hne, hchars, _⟩ := h.exists_fits hp
      exact ⟨hne, fun c hc => isNameChar_iff.2 (hchars c hc)⟩
    | _ => cases hparam
  · obtain ⟨i, _, rfl⟩ := List.mem_map.1 hname
    exact isName_wildcardName i

theorem isName_of_mem_parameterNames {template : String} {parts : List TemplatePart}
    (h : parse template = .ok parts) {name : String} (hname : name ∈ parameterNames parts) :
    IsName name :=
  (parse_eq_ok_iff_reads.1 h).canonical.isName_of_mem_parameterNames hname

def Piece.value (env : String → String) : Piece → String
  | .verbatim text => text
  | .argument name => env name

theorem join_literalParts (env : String → String) (p : Piece) :
    String.join (p.literalParts.map (LiteralPart.value env)) = p.value env := by
  cases p with
  | verbatim text =>
    rw [← String.toList_inj, String.toList_join, List.flatMap_map, Piece.literalParts,
      List.flatMap_map]
    simp [LiteralPart.value, Piece.value]
  | argument name => simp [LiteralPart.value, Piece.literalParts, Piece.value]

theorem join_flatMap_literalParts (env : String → String) (ps : List Piece) :
    String.join ((ps.flatMap Piece.literalParts).map (LiteralPart.value env)) =
      String.join (ps.map (Piece.value env)) := by
  induction ps with
  | nil => rfl
  | cons p rest ih =>
    rw [List.flatMap_cons, List.map_append, String.join_append, join_literalParts, ih,
      List.map_cons, String.join_cons]

theorem map_value_piecesFrom (env : String → String) (wildcards : Nat)
    (parts : List TemplatePart) :
    (piecesFrom wildcards parts).map (Piece.value env) = parts.mapIdx fun i part =>
      part.value env (wildcards + (parts.take i).count .wildcard) := by
  induction parts generalizing wildcards with
  | nil => rfl
  | cons part rest ih =>
    rw [List.mapIdx_cons]
    cases part with
    | text t => simp [piecesFrom, ih, Piece.value, TemplatePart.value]
    | separator => simp [piecesFrom, ih, Piece.value, TemplatePart.value]
    | param name => simp [piecesFrom, ih, Piece.value, TemplatePart.value]
    | wildcard =>
      simp [piecesFrom, ih, Piece.value, TemplatePart.value, Nat.add_assoc, Nat.add_comm 1]

/-- The path of a template is the body of one template literal, whose placeholders are the
parameters and which evaluates to the parts with their values. -/
theorem interpolatedPath_comes_to_parts {template : String} {parts : List TemplatePart}
    (h : parse template = .ok parts) (env : String → String) (after : List Char) :
    ∃ literal, readLiteral? ((interpolatedPath parts).toList ++ '\x60' :: after) =
        some (literal, after) ∧
      literal.filterMap LiteralPart.expression? = parameterNames parts ∧
      (∀ name ∈ parameterNames parts, IsName name) ∧
      String.join (literal.map (LiteralPart.value env)) =
        String.join (parts.mapIdx fun i part =>
          part.value env ((parts.take i).count .wildcard)) := by
  have hnames : ∀ name ∈ parameterNames parts, IsName name :=
    fun name hname => isName_of_mem_parameterNames h hname
  refine ⟨(pieces parts).flatMap Piece.literalParts,
    (stands_interpolatedPath hnames).readLiteral?_eq after,
    filterMap_literalParts (pieces parts), hnames, ?_⟩
  rw [join_flatMap_literalParts, pieces, map_value_piecesFrom]
  simp

theorem interpolatedPath_comes_to_parts_between_marks :
    let template := "\\`$\x7b:id\x7d/*/*"
    let parts : List TemplatePart :=
      [.text "\\`$\x7b", .param "id", .text "\x7d", .separator, .wildcard, .separator, .wildcard]
    let env : String → String := fun name => "<" ++ name ++ ">"
    parse template = .ok parts ∧
      ∃ literal, readLiteral? ((interpolatedPath parts).toList ++ "`, `".toList) =
          some (literal, ", `".toList) ∧
        literal.filterMap LiteralPart.expression? = ["id", "wildcard", "wildcard2"] ∧
        String.join (literal.map (LiteralPart.value env)) =
          "\\`$\x7b<id>\x7d/<wildcard>/<wildcard2>" := by
  intro template parts env
  have hparse : parse template = .ok parts := by cbv
  obtain ⟨literal, hread, hnames, -, hvalue⟩ :=
    interpolatedPath_comes_to_parts hparse env ", `".toList
  exact ⟨hparse, literal, hread, hnames.trans (by cbv), hvalue.trans (by cbv)⟩

end Template

end ApiContract
