import ApiContract.Proofs.TypeText.Tokens
import ApiContract.Proofs.TypeText.Tree

/-!
Reading a type expression from its tokens. Brackets bind tighter than an intersection, an
intersection tighter than a union, and parentheses group. The reader folds the tokens and keeps the
sums that are still open on a stack.

A piece of text is described by the phrase it adds: its products, the factors of the last product,
and the operand that a bracket behind it would bind to.
-/

namespace ApiContract.TypeText

/-- A union of intersections that waits for an operand: finished products, and the finished factors
of the product in progress. -/
structure Sum where
  products : List (List TypeExpr)
  factors : List TypeExpr

def Sum.empty : Sum := ⟨[], []⟩

structure Phrase extends Sum where
  operand : TypeExpr

namespace Phrase

def ofOperand (t : TypeExpr) : Phrase :=
  { Sum.empty with operand := t }

def allProducts (p : Phrase) : List (List TypeExpr) :=
  p.products ++ [p.factors ++ [p.operand]]

def tree (p : Phrase) : TypeExpr :=
  .combine .union (p.allProducts.map (.combine .intersection))

def and (p : Phrase) : Sum :=
  ⟨p.products, p.factors ++ [p.operand]⟩

def or (p : Phrase) : Sum :=
  ⟨p.allProducts, []⟩

def array (p : Phrase) : Phrase :=
  { p with operand := .array p.operand }

end Phrase

def Sum.followedBy (s : Sum) (p : Phrase) : Phrase :=
  match p.products with
  | [] => ⟨⟨s.products, s.factors ++ p.factors⟩, p.operand⟩
  | first :: rest => ⟨⟨s.products ++ (s.factors ++ first) :: rest, p.factors⟩, p.operand⟩

inductive Frame where
  | group
  | record
  | object (fields : List (String × Bool × TypeExpr)) (name : String) (optional : Bool)

inductive Expected where
  | operand
  | operator (operand : TypeExpr)
  | rightBracket (items : TypeExpr)
  | recordLess
  | recordKey
  | recordComma
  | fieldName
  | fieldMark (name : String)
  | fieldColon (name : String)

structure Reader where
  frames : List (Sum × Frame)
  sum : Sum
  expected : Expected

namespace Reader

def startWord (r : Reader) (name : String) : Option Reader :=
  if name = "Record" then
    some { r with expected := .recordLess }
  else if name = "never" then
    some { r with expected := .operator .never }
  else
    (Primitive.ofName? name).map fun p => { r with expected := .operator (.primitive p) }

def step (r : Reader) (t : Token) : Option Reader :=
  match r.expected, t, r.frames with
  | .operand, .word name, _ => r.startWord name
  | .operand, .literal l, _ => some { r with expected := .operator (.literal l) }
  | .operand, .leftParen, frames => some ⟨(r.sum, .group) :: frames, .empty, .operand⟩
  | .operand, .leftBrace, frames =>
    some ⟨(r.sum, .object [] "" false) :: frames, .empty, .fieldName⟩
  | .operator t, .leftBracket, _ => some { r with expected := .rightBracket t }
  | .rightBracket t, .rightBracket, _ => some { r with expected := .operator (.array t) }
  | .operator t, .ampersand, _ => some ⟨r.frames, Phrase.and ⟨r.sum, t⟩, .operand⟩
  | .operator t, .bar, _ => some ⟨r.frames, Phrase.or ⟨r.sum, t⟩, .operand⟩
  | .operator t, .rightParen, (outer, .group) :: frames =>
    some ⟨frames, outer, .operator (Phrase.tree ⟨r.sum, t⟩)⟩
  | .recordLess, .less, _ => some { r with expected := .recordKey }
  | .recordKey, .word "string", _ => some { r with expected := .recordComma }
  | .recordComma, .comma, frames => some ⟨(r.sum, .record) :: frames, .empty, .operand⟩
  | .operator t, .greater, (outer, .record) :: frames =>
    some ⟨frames, outer, .operator (.record (Phrase.tree ⟨r.sum, t⟩))⟩
  | .fieldName, .word name, _ => some { r with expected := .fieldMark name }
  | .fieldName, .literal (.string name), _ => some { r with expected := .fieldMark name }
  | .fieldMark name, .question, _ => some { r with expected := .fieldColon name }
  | .fieldMark name, .colon, (outer, .object fields _ _) :: frames =>
    some ⟨(outer, .object fields name false) :: frames, .empty, .operand⟩
  | .fieldColon name, .colon, (outer, .object fields _ _) :: frames =>
    some ⟨(outer, .object fields name true) :: frames, .empty, .operand⟩
  | .operator t, .semicolon, (outer, .object fields name optional) :: frames =>
    some ⟨(outer, .object (fields ++ [(name, optional, Phrase.tree ⟨r.sum, t⟩)]) "" false) ::
      frames, .empty, .fieldName⟩
  | .operator t, .rightBrace, (outer, .object fields name optional) :: frames =>
    some ⟨frames, outer,
      .operator (.object (fields ++ [(name, optional, Phrase.tree ⟨r.sum, t⟩)]))⟩
  | .fieldName, .rightBrace, (outer, .object fields _ _) :: frames =>
    some ⟨frames, outer, .operator (.object fields)⟩
  | _, _, _ => none

def after (frames : List (Sum × Frame)) (p : Phrase) : Reader :=
  ⟨frames, p.toSum, .operator p.operand⟩

end Reader

def parse? (s : String) : Option TypeExpr := do
  let r ← (← tokens? s.toList).foldlM Reader.step ⟨[], .empty, .operand⟩
  match r.frames, r.expected with
  | [], .operator t => return Phrase.tree ⟨r.sum, t⟩
  | _, _ => none

variable {p q : Phrase} {cs ds : List Char}

@[simp] theorem empty_followedBy (p : Phrase) : Sum.empty.followedBy p = p := by
  obtain ⟨⟨products, factors⟩, operand⟩ := p
  cases products <;> simp [Sum.followedBy, Sum.empty]

@[simp] theorem followedBy_ofOperand (s : Sum) (t : TypeExpr) :
    s.followedBy (.ofOperand t) = { s with operand := t } := by
  simp [Sum.followedBy, Phrase.ofOperand, Sum.empty]

theorem followedBy_array (s : Sum) (p : Phrase) :
    s.followedBy p.array = (s.followedBy p).array := by
  obtain ⟨⟨products, factors⟩, operand⟩ := p
  cases products <;> rfl

theorem followedBy_and (s : Sum) (p q : Phrase) :
    (s.followedBy p).and.followedBy q = s.followedBy (p.and.followedBy q) := by
  obtain ⟨⟨products, factors⟩, operand⟩ := p
  obtain ⟨⟨products', factors'⟩, operand'⟩ := q
  cases products <;> cases products' <;> simp [Sum.followedBy, Phrase.and]

theorem followedBy_or (s : Sum) (p q : Phrase) :
    (s.followedBy p).or.followedBy q = s.followedBy (p.or.followedBy q) := by
  obtain ⟨⟨products, factors⟩, operand⟩ := p
  obtain ⟨⟨products', factors'⟩, operand'⟩ := q
  cases products <;> cases products' <;> simp [Sum.followedBy, Phrase.or, Phrase.allProducts]

namespace Reader

variable (frames : List (Sum × Frame)) (outer : Sum) (p : Phrase)

@[simp] theorem step_after_ampersand :
    (after frames p).step .ampersand = some ⟨frames, p.and, .operand⟩ := rfl

@[simp] theorem step_after_bar :
    (after frames p).step .bar = some ⟨frames, p.or, .operand⟩ := rfl

@[simp] theorem step_after_rightParen :
    (after ((outer, .group) :: frames) p).step .rightParen =
      some (after frames (outer.followedBy (.ofOperand p.tree))) := by
  rw [followedBy_ofOperand]
  rfl

@[simp] theorem step_after_greater :
    (after ((outer, .record) :: frames) p).step .greater =
      some (after frames (outer.followedBy (.ofOperand (.record p.tree)))) := by
  rw [followedBy_ofOperand]
  rfl

@[simp] theorem step_after_semicolon (fields : List (String × Bool × TypeExpr)) (name : String)
    (optional : Bool) :
    (after ((outer, .object fields name optional) :: frames) p).step .semicolon =
      some ⟨(outer, .object (fields ++ [(name, optional, p.tree)]) "" false) :: frames, .empty,
        .fieldName⟩ := rfl

@[simp] theorem step_after_rightBrace (fields : List (String × Bool × TypeExpr)) (name : String)
    (optional : Bool) :
    (after ((outer, .object fields name optional) :: frames) p).step .rightBrace =
      some (after frames
        (outer.followedBy (.ofOperand (.object (fields ++ [(name, optional, p.tree)]))))) := by
  rw [followedBy_ofOperand]
  rfl

end Reader

/-- Reading `cs` where an operand is due adds the phrase `p`. -/
def Spells (cs : List Char) (p : Phrase) : Prop :=
  ∃ tokens, Lexes cs tokens ∧ ∀ frames sum,
    tokens.foldlM Reader.step ⟨frames, sum, .operand⟩ = some (.after frames (sum.followedBy p))

theorem Spells.parse? {text : String} (h : Spells text.toList p) :
    parse? text = some p.tree := by
  obtain ⟨tokens, hlexes, hrun⟩ := h
  simp [TypeText.parse?, hlexes.tokens?_eq, hrun, Reader.after]

theorem spells_of_token {t : Token} {u : TypeExpr} (hlexes : Lexes cs [t])
    (hstep : ∀ frames sum, Reader.step ⟨frames, sum, .operand⟩ t =
      some ⟨frames, sum, .operator u⟩) : Spells cs (.ofOperand u) := by
  refine ⟨[t], hlexes, fun frames sum => ?_⟩
  simp [hstep, Reader.after]

theorem spells_primitive (kind : Primitive) :
    Spells kind.name.toList (.ofOperand (.primitive kind)) := by
  cases kind <;> exact spells_of_token (lexes_name (by decide)) fun _ _ => rfl

theorem spells_never : Spells "never".toList (.ofOperand .never) :=
  spells_of_token (lexes_name (by decide)) fun _ _ => rfl

theorem spells_literal (l : Literal) : Spells l.toJson.text.toList (.ofOperand (.literal l)) :=
  spells_of_token (lexes_literal l) fun _ _ => rfl

theorem Spells.group (h : Spells cs p) :
    Spells ('(' :: (cs ++ [')'])) (.ofOperand p.tree) := by
  obtain ⟨tokens, hlexes, hrun⟩ := h
  refine ⟨.leftParen :: (tokens ++ [Token.rightParen]), ?_, fun frames sum => ?_⟩
  · exact (hlexes.append (lexes_nil.mark fun _ => rfl) rfl).mark fun _ => rfl
  · have hopen : Reader.step ⟨frames, sum, .operand⟩ .leftParen =
        some ⟨(sum, .group) :: frames, .empty, .operand⟩ := rfl
    simp [List.foldlM_cons, hopen, hrun]

theorem Spells.array (h : Spells cs p) : Spells (cs ++ ['[', ']']) p.array := by
  obtain ⟨tokens, hlexes, hrun⟩ := h
  refine ⟨tokens ++ [Token.leftBracket, .rightBracket], ?_, fun frames sum => ?_⟩
  · exact hlexes.append ((lexes_nil.mark fun _ => rfl).mark fun _ => rfl) rfl
  · rw [List.foldlM_append, hrun, followedBy_array]
    rfl

theorem Spells.record (h : Spells cs p) :
    Spells ("Record<string, ".toList ++ cs ++ ['>']) (.ofOperand (.record p.tree)) := by
  obtain ⟨tokens, hlexes, hrun⟩ := h
  have hvalues : Lexes (',' :: ' ' :: (cs ++ ['>'])) (.comma :: (tokens ++ [Token.greater])) :=
    (hlexes.append (lexes_nil.mark fun _ => rfl) rfl).blank.mark fun _ => rfl
  have hkey : Lexes ('<' :: ("string".toList ++ ',' :: ' ' :: (cs ++ ['>'])))
      (.less :: .word "string" :: .comma :: (tokens ++ [Token.greater])) :=
    ((lexes_name (by decide)).append hvalues rfl).mark fun _ => rfl
  refine ⟨[Token.word "Record", .less, .word "string", .comma] ++ (tokens ++ [Token.greater]),
    by simpa using (@lexes_name "Record" (by decide)).append hkey rfl, fun frames sum => ?_⟩
  have hopen : [Token.word "Record", .less, .word "string", .comma].foldlM Reader.step
      ⟨frames, sum, .operand⟩ = some ⟨(sum, .record) :: frames, .empty, .operand⟩ := rfl
  rw [List.foldlM_append, hopen]
  simp [hrun]

theorem Spells.and (hp : Spells cs p) (hq : Spells ds q) :
    Spells (cs ++ " & ".toList ++ ds) (p.and.followedBy q) := by
  obtain ⟨tokens, hlexes, hrun⟩ := hp
  obtain ⟨more, hlexes', hrun'⟩ := hq
  refine ⟨tokens ++ Token.ampersand :: more, ?_, fun frames sum => ?_⟩
  · rw [List.append_assoc]
    exact hlexes.append (hlexes'.blank.mark fun _ => rfl).blank rfl
  · simp [List.foldlM_cons, hrun, hrun', followedBy_and]

theorem Spells.or (hp : Spells cs p) (hq : Spells ds q) :
    Spells (cs ++ " | ".toList ++ ds) (p.or.followedBy q) := by
  obtain ⟨tokens, hlexes, hrun⟩ := hp
  obtain ⟨more, hlexes', hrun'⟩ := hq
  refine ⟨tokens ++ Token.bar :: more, ?_, fun frames sum => ?_⟩
  · rw [List.append_assoc]
    exact hlexes.append (hlexes'.blank.mark fun _ => rfl).blank rfl
  · simp [List.foldlM_cons, hrun, hrun', followedBy_or]

def SpellsFields (cs : List Char) (fields : List (String × Bool × TypeExpr)) : Prop :=
  ∃ tokens, Lexes cs tokens ∧ ∀ frames outer earlier name optional,
    tokens.foldlM Reader.step
      ⟨(outer, .object earlier name optional) :: frames, .empty, .fieldName⟩ =
      some (.after frames (outer.followedBy (.ofOperand (.object (earlier ++ fields)))))

theorem SpellsFields.object {fields : List (String × Bool × TypeExpr)}
    (h : SpellsFields cs fields) : Spells ('{' :: cs) (.ofOperand (.object fields)) := by
  obtain ⟨tokens, hlexes, hrun⟩ := h
  refine ⟨.leftBrace :: tokens, hlexes.mark fun _ => rfl, fun frames sum => ?_⟩
  have hopen : Reader.step ⟨frames, sum, .operand⟩ .leftBrace =
      some ⟨(sum, .object [] "" false) :: frames, .empty, .fieldName⟩ := rfl
  simp [List.foldlM_cons, hopen, hrun]

theorem spellsFields_nil : SpellsFields ['}'] [] := by
  refine ⟨[.rightBrace], lexes_nil.mark fun _ => rfl, fun frames outer earlier name optional => ?_⟩
  rw [followedBy_ofOperand, List.append_nil]
  rfl

theorem SpellsFields.blank {fields : List (String × Bool × TypeExpr)} (h : SpellsFields cs fields) :
    SpellsFields (' ' :: cs) fields := by
  obtain ⟨tokens, hlexes, hrun⟩ := h
  exact ⟨tokens, hlexes.blank, hrun⟩

def SpellsField (cs : List Char) (name : String) (optional : Bool) (p : Phrase) : Prop :=
  ∃ tokens, Lexes cs tokens ∧ ∀ frames outer earlier name' optional',
    tokens.foldlM Reader.step
      ⟨(outer, .object earlier name' optional') :: frames, .empty, .fieldName⟩ =
      some (.after ((outer, .object earlier name optional) :: frames) p)

theorem Spells.field {name : String} (hname : isPlainName name) (optional : Bool)
    (h : Spells cs p) : SpellsField ((Identifier.keyText name).toList ++
      ((if optional then "?: " else ": ").toList ++ cs)) name optional p := by
  obtain ⟨tokens, hlexes, hrun⟩ := h
  obtain ⟨key, hkey, hword⟩ := lexes_key hname
  have hcolon : Lexes (": ".toList ++ cs) (.colon :: tokens) := hlexes.blank.mark fun _ => rfl
  have hstep (frames : List (Sum × Frame)) :
      Reader.step ⟨frames, .empty, .fieldName⟩ key = some ⟨frames, .empty, .fieldMark name⟩ := by
    rcases hword with rfl | rfl <;> rfl
  have hquestion (frames : List (Sum × Frame)) :
      Reader.step ⟨frames, .empty, .fieldMark name⟩ .question =
        some ⟨frames, .empty, .fieldColon name⟩ := rfl
  cases optional with
  | true =>
    refine ⟨[key] ++ Token.question :: .colon :: tokens, hkey.append (hcolon.mark fun _ => rfl) rfl,
      fun frames outer earlier name' optional' => ?_⟩
    have htype : Reader.step
        ⟨(outer, .object earlier name' optional') :: frames, .empty, .fieldColon name⟩ .colon =
        some ⟨(outer, .object earlier name true) :: frames, .empty, .operand⟩ := rfl
    simp [List.foldlM_cons, hstep, hquestion, htype, hrun]
  | false =>
    refine ⟨[key] ++ Token.colon :: tokens, hkey.append hcolon rfl,
      fun frames outer earlier name' optional' => ?_⟩
    have htype : Reader.step
        ⟨(outer, .object earlier name' optional') :: frames, .empty, .fieldMark name⟩ .colon =
        some ⟨(outer, .object earlier name false) :: frames, .empty, .operand⟩ := rfl
    simp [List.foldlM_cons, hstep, htype, hrun]

theorem SpellsField.last {name : String} {optional : Bool} (h : SpellsField cs name optional p) :
    SpellsFields (cs ++ " \x7d".toList) [(name, optional, p.tree)] := by
  obtain ⟨tokens, hlexes, hrun⟩ := h
  refine ⟨tokens ++ [Token.rightBrace], hlexes.append (lexes_nil.mark fun _ => rfl).blank rfl,
    fun frames outer earlier name' optional' => ?_⟩
  simp [hrun]

theorem SpellsField.cons {name : String} {optional : Bool}
    {fields : List (String × Bool × TypeExpr)} (h : SpellsField cs name optional p)
    (hfields : SpellsFields ds fields) :
    SpellsFields (cs ++ ("; ".toList ++ ds)) ((name, optional, p.tree) :: fields) := by
  obtain ⟨tokens, hlexes, hrun⟩ := h
  obtain ⟨more, hlexes', hrun'⟩ := hfields
  refine ⟨tokens ++ Token.semicolon :: more, hlexes.append (hlexes'.blank.mark fun _ => rfl) rfl,
    fun frames outer earlier name' optional' => ?_⟩
  simp [List.foldlM_cons, hrun, hrun']

end ApiContract.TypeText
