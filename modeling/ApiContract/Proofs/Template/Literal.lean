import ApiContract.Template

namespace ApiContract.Template

inductive LiteralPart where
  | char (c : Char)
  | placeholder (expression : String)
  deriving DecidableEq

def LiteralPart.expression? : LiteralPart → Option String
  | .char _ => none
  | .placeholder expression => some expression

def isExpressionChar (c : Char) : Bool :=
  isNameChar c || c = ' ' || c = '(' || c = ')'

/-- Reads a template literal from behind its opening backtick, and leaves what follows the closing
one. -/
def readLiteral? : List Char → Option (List LiteralPart × List Char)
  | [] => none
  | '\x60' :: rest => some ([], rest)
  | '\\' :: c :: rest =>
    if c = '\\' ∨ c = '\x60' ∨ c = '$' then (readLiteral? rest).map (.map (.char c :: ·) id)
    else none
  | '$' :: '{' :: rest =>
    let expression := rest.takeWhile isExpressionChar
    let following := rest.dropWhile isExpressionChar
    if expression ≠ [] ∧ following.head? = some '}' then
      (readLiteral? following.tail).map (.map (.placeholder (String.ofList expression) :: ·) id)
    else
      none
  | c :: rest => (readLiteral? rest).map (.map (.char c :: ·) id)
termination_by cs => cs.length
decreasing_by
  all_goals simp only [List.length_cons, List.length_tail]
  all_goals have := (List.dropWhile_sublist isExpressionChar (l := rest)).length_le
  all_goals omega

def Stands (chars : List Char) (parts : List LiteralPart) : Prop :=
  ∀ rest, readLiteral? (chars ++ rest) = (readLiteral? rest).map (.map (parts ++ ·) id)

theorem stands_nil : Stands [] [] := by
  intro rest
  rw [List.nil_append]
  cases readLiteral? rest <;> rfl

theorem Stands.append {chars chars' : List Char} {parts parts' : List LiteralPart}
    (h : Stands chars parts) (h' : Stands chars' parts') :
    Stands (chars ++ chars') (parts ++ parts') := by
  intro rest
  rw [List.append_assoc, h, h', Option.map_map]
  congr 1
  funext following
  simp [Prod.map]

theorem stands_flatMap {α : Type} {f : α → List Char} {g : α → List LiteralPart} {as : List α}
    (h : ∀ a ∈ as, Stands (f a) (g a)) : Stands (as.flatMap f) (as.flatMap g) := by
  induction as with
  | nil => exact stands_nil
  | cons a rest ih =>
    obtain ⟨ha, hrest⟩ := List.forall_mem_cons.1 h
    rw [List.flatMap_cons, List.flatMap_cons]
    exact ha.append (ih hrest)

theorem Stands.readLiteral?_eq {chars : List Char} {parts : List LiteralPart}
    (h : Stands chars parts) (after : List Char) :
    readLiteral? (chars ++ '\x60' :: after) = some (parts, after) := by
  rw [h, readLiteral?]
  simp

theorem stands_char {c : Char} (hbackslash : c ≠ '\\') (hbacktick : c ≠ '\x60')
    (hdollar : c ≠ '$') : Stands [c] [.char c] := by
  intro rest
  rw [List.singleton_append, readLiteral?]
  · rfl
  · exact hbacktick
  · simp [hbackslash]
  · simp [hdollar]

theorem stands_escape {c : Char} (h : c = '\\' ∨ c = '\x60' ∨ c = '$') :
    Stands ['\\', c] [.char c] := by
  intro rest
  rw [List.cons_append, List.singleton_append, readLiteral?, if_pos h]
  rfl

theorem stands_placeholder {expression : String} (hne : expression ≠ "")
    (h : ∀ c ∈ expression.toList, isExpressionChar c = true) :
    Stands ('$' :: '{' :: (expression.toList ++ ['}'])) [.placeholder expression] := by
  intro rest
  have htake : (expression.toList ++ '}' :: rest).takeWhile isExpressionChar =
      expression.toList := by
    rw [List.takeWhile_append_of_pos h]
    simp [isExpressionChar, isNameChar]
  have hdrop : (expression.toList ++ '}' :: rest).dropWhile isExpressionChar = '}' :: rest := by
    rw [List.dropWhile_append_of_pos h]
    simp [isExpressionChar, isNameChar]
  rw [List.cons_append, List.cons_append, List.append_assoc, List.singleton_append, readLiteral?]
  simp [htake, hdrop, hne]

theorem stands_escapedText (text : String) :
    Stands (escapedText text).toList (text.toList.map .char) := by
  rw [escapedText, String.toList_ofList, List.map_eq_flatMap]
  apply stands_flatMap
  intro c _
  split
  · rename_i h
    exact stands_escape h
  · rename_i h
    rw [not_or, not_or] at h
    exact stands_char h.1 h.2.1 h.2.2

def Piece.literalParts : Piece → List LiteralPart
  | .verbatim text => text.toList.map .char
  | .argument name => [.placeholder name]

def IsName (name : String) : Prop :=
  name ≠ "" ∧ ∀ c ∈ name.toList, isNameChar c = true

theorem stands_interpolated {p : Piece} (h : ∀ name ∈ p.argumentName?, IsName name) :
    Stands p.interpolated.toList p.literalParts := by
  cases p with
  | verbatim text => exact stands_escapedText text
  | argument name =>
    obtain ⟨hne, hchars⟩ := h name rfl
    have hname := stands_placeholder hne fun c hc => by simp [isExpressionChar, hchars c hc]
    simpa [Piece.interpolated, Piece.literalParts] using hname

theorem stands_interpolatedPath {parts : List TemplatePart}
    (h : ∀ name ∈ parameterNames parts, IsName name) :
    Stands (interpolatedPath parts).toList ((pieces parts).flatMap Piece.literalParts) := by
  rw [interpolatedPath, String.toList_join, List.flatMap_map]
  apply stands_flatMap
  intro p hp
  apply stands_interpolated
  intro name hname
  exact h name (List.mem_filterMap.2 ⟨p, hp, hname⟩)

theorem filterMap_literalParts (pieces : List Piece) :
    (pieces.flatMap Piece.literalParts).filterMap LiteralPart.expression? =
      pieces.filterMap Piece.argumentName? := by
  induction pieces with
  | nil => rfl
  | cons p rest ih =>
    rw [List.flatMap_cons, List.filterMap_append, ih]
    cases p with
    | verbatim text =>
      simp [Piece.literalParts, Piece.argumentName?, LiteralPart.expression?, List.filterMap_cons,
        List.filterMap_map, Function.comp_def]
    | argument name => rfl

end ApiContract.Template
