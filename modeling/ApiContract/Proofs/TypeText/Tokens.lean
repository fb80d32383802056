import ApiContract.Proofs.Json.StringBody
import ApiContract.Proofs.Number.ReadBack
import ApiContract.Schema.Basic

/-!
The tokens of a type text, one fold over its characters. Text that is put together from pieces has
the tokens of the pieces, provided that no word runs on from one piece into the next.
-/

namespace ApiContract.TypeText

inductive Token where
  | word (text : String)
  | literal (value : Literal)
  | leftBracket
  | rightBracket
  | leftBrace
  | rightBrace
  | leftParen
  | rightParen
  | less
  | greater
  | bar
  | ampersand
  | semicolon
  | colon
  | comma
  | question

def markToken? : Char → Option Token
  | '[' => some .leftBracket
  | ']' => some .rightBracket
  | '{' => some .leftBrace
  | '}' => some .rightBrace
  | '(' => some .leftParen
  | ')' => some .rightParen
  | '<' => some .less
  | '>' => some .greater
  | '|' => some .bar
  | '&' => some .ampersand
  | ';' => some .semicolon
  | ':' => some .colon
  | ',' => some .comma
  | '?' => some .question
  | _ => none

def isWordChar (c : Char) : Bool :=
  Json.isWordChar c || Identifier.isLetter c

def wordToken? (word : List Char) : Option Token :=
  if Identifier.isSimple (String.ofList word) then
    some (.word (String.ofList word))
  else
    match Json.wordToken? word with
    | some (.scalar (.num n)) => some (.literal (.number n))
    | _ => none

structure Lexer where
  tokens : List Token
  lexing : Json.Lexing

namespace Lexer

def start (tokens : List Token) (c : Char) : Option Lexer :=
  if c.isWhitespace then
    some ⟨tokens, .between⟩
  else if c = '"' then
    some ⟨tokens, .string [] false⟩
  else if isWordChar c then
    some ⟨tokens, .word [c]⟩
  else
    (markToken? c).map fun t => ⟨t :: tokens, .between⟩

def finish (l : Lexer) : Option (List Token) :=
  match l.lexing with
  | .between => some l.tokens
  | .word seen => (wordToken? seen.reverse).map (· :: l.tokens)
  | .string _ _ => none

def step (l : Lexer) (c : Char) : Option Lexer :=
  match l.lexing with
  | .between => start l.tokens c
  | .word seen =>
    if isWordChar c then
      some { l with lexing := .word (c :: seen) }
    else
      l.finish.bind fun tokens => start tokens c
  | .string seen true => some { l with lexing := .string (c :: seen) false }
  | .string seen false =>
    if c = '"' then
      (Json.stringOfBody seen.reverse).map fun s => ⟨.literal (.string s) :: l.tokens, .between⟩
    else
      some { l with lexing := .string (c :: seen) (c = '\\') }

end Lexer

def tokens? (cs : List Char) : Option (List Token) := do
  let l ← cs.foldlM Lexer.step ⟨[], .between⟩
  return (← l.finish).reverse

/-- Reading `cs` after any tokens adds exactly `tokens`. -/
def Lexes (cs : List Char) (tokens : List Token) : Prop :=
  ∀ earlier, ∃ l, cs.foldlM Lexer.step ⟨earlier, .between⟩ = some l ∧
    l.finish = some (tokens.reverse ++ earlier)

theorem Lexes.tokens?_eq {cs : List Char} {tokens : List Token} (h : Lexes cs tokens) :
    tokens? cs = some tokens := by
  obtain ⟨l, hrun, hfinish⟩ := h []
  simp [tokens?, hrun, hfinish]

theorem lexes_nil : Lexes [] [] :=
  fun earlier => ⟨⟨earlier, .between⟩, rfl, rfl⟩

theorem Lexes.blank {cs : List Char} {tokens : List Token} (h : Lexes cs tokens) :
    Lexes (' ' :: cs) tokens :=
  h

theorem Lexes.mark {c : Char} {t : Token} {cs : List Char} {tokens : List Token}
    (hmark : ∀ earlier, Lexer.start earlier c = some ⟨t :: earlier, .between⟩)
    (h : Lexes cs tokens) : Lexes (c :: cs) (t :: tokens) := by
  intro earlier
  obtain ⟨l, hrun, hfinish⟩ := h (t :: earlier)
  refine ⟨l, ?_, by simp [hfinish]⟩
  simp [List.foldlM_cons, Lexer.step, hmark, hrun]

theorem Lexes.append {cs ds : List Char} {tokens more : List Token} (hcs : Lexes cs tokens)
    (hds : Lexes ds more) (hbreak : ds.head?.all (!isWordChar ·)) :
    Lexes (cs ++ ds) (tokens ++ more) := by
  intro earlier
  obtain ⟨l, hrun, hfinish⟩ := hcs earlier
  obtain ⟨l', hrun', hfinish'⟩ := hds (tokens.reverse ++ earlier)
  cases ds with
  | nil =>
    obtain rfl : (⟨tokens.reverse ++ earlier, .between⟩ : Lexer) = l' := Option.some.inj hrun'
    obtain rfl : more = [] := by simpa [Lexer.finish] using hfinish'
    exact ⟨l, by simpa using hrun, by simpa using hfinish⟩
  | cons c ds =>
    -- a word that is still open ends here, since the second piece does not go on with it
    have hstep : l.step c = Lexer.start (tokens.reverse ++ earlier) c := by
      obtain ⟨seen, lexing⟩ := l
      cases lexing with
      | between =>
        obtain rfl := Option.some.inj hfinish
        rfl
      | word word =>
        have hc : isWordChar c = false := by simpa using hbreak
        simp [Lexer.step, hc, hfinish]
      | string => simp [Lexer.finish] at hfinish
    refine ⟨l', ?_, by simp [hfinish']⟩
    rw [List.foldlM_append, hrun, Option.bind_eq_bind, Option.bind_some, List.foldlM_cons, hstep]
    exact hrun'

theorem foldlM_word (tokens : List Token) {word : List Char} (h : ∀ c ∈ word, isWordChar c)
    (seen : List Char) :
    word.foldlM Lexer.step ⟨tokens, .word seen⟩ = some ⟨tokens, .word (word.reverse ++ seen)⟩ := by
  induction word generalizing seen with
  | nil => rfl
  | cons c rest ih =>
    rw [List.foldlM_cons, Lexer.step]
    simp [h c (by simp), ih fun c hc => h c (by simp [hc])]

theorem start_word {c : Char} (h : isWordChar c) (tokens : List Token) :
    Lexer.start tokens c = some ⟨tokens, .word [c]⟩ := by
  have hblank : c.isWhitespace = false := by
    by_contra hblank
    simp only [Char.isWhitespace, Bool.not_eq_false, Bool.or_eq_true, decide_eq_true_eq] at hblank
    rcases hblank with ((rfl | rfl) | rfl) | rfl <;> exact absurd h (by decide)
  have hquote : c ≠ '"' := by
    rintro rfl
    exact absurd h (by decide)
  simp [Lexer.start, hblank, hquote, h]

theorem lexes_word {word : List Char} {t : Token} (hne : word ≠ [])
    (hword : ∀ c ∈ word, isWordChar c) (htoken : wordToken? word = some t) : Lexes word [t] := by
  obtain ⟨c, rest, rfl⟩ := List.exists_cons_of_ne_nil hne
  intro earlier
  refine ⟨⟨earlier, .word (rest.reverse ++ [c])⟩, ?_, by simp [Lexer.finish, htoken]⟩
  have hrest : ∀ d ∈ rest, isWordChar d := fun d hd => hword d (by simp [hd])
  have hfirst : Lexer.step ⟨earlier, .between⟩ c = some ⟨earlier, .word [c]⟩ :=
    start_word (hword c (by simp)) earlier
  rw [List.foldlM_cons, hfirst]
  exact foldlM_word earlier hrest [c]

theorem foldlM_enclosed (tokens : List Token) {body : List Char} (h : Json.Enclosed body)
    (seen : List Char) :
    body.foldlM Lexer.step ⟨tokens, .string seen false⟩ =
      some ⟨tokens, .string (body.reverse ++ seen) false⟩ := by
  induction h generalizing seen with
  | nil => rfl
  | plain hquote hbackslash _ ih => simp [List.foldlM_cons, Lexer.step, hquote, hbackslash, ih]
  | escape _ ih => simp [List.foldlM_cons, Lexer.step, ih]

theorem lexes_string {escape : Char → List Char} {s : String}
    (h : ∀ c ∈ s.toList, Json.Denotes (escape c) c) :
    Lexes ('"' :: s.toList.flatMap escape ++ ['"']) [.literal (.string s)] := by
  intro earlier
  refine ⟨⟨.literal (.string s) :: earlier, .between⟩, ?_, rfl⟩
  have hopen : Lexer.step ⟨earlier, .between⟩ '"' = some ⟨earlier, .string [] false⟩ := rfl
  have hclose : Lexer.step ⟨earlier, .string ((s.toList.flatMap escape).reverse ++ []) false⟩ '"' =
      some ⟨.literal (.string s) :: earlier, .between⟩ := by
    simp [Lexer.step, Json.stringOfBody_flatMap h]
  rw [List.foldlM_append, List.foldlM_cons, hopen, Option.bind_eq_bind, Option.bind_some,
    foldlM_enclosed earlier (Json.enclosed_flatMap h), Option.bind_some, List.foldlM_cons, hclose]
  rfl

theorem not_isLetter_of_isDigit {c : Char} (h : c.isDigit) : Identifier.isLetter c = false := by
  by_contra hletter
  simp only [Identifier.isLetter, Bool.not_eq_false, Bool.or_eq_true, decide_eq_true_eq] at hletter
  rcases hletter with (halpha | rfl) | rfl
  · simp only [Char.isAlpha, Char.isUpper, Char.isLower, Char.isDigit, Bool.or_eq_true,
      Bool.and_eq_true, decide_eq_true_eq, ge_iff_le, UInt32.le_iff_toNat_le] at halpha h
    simp at halpha h
    omega
  · exact absurd h (by decide)
  · exact absurd h (by decide)

theorem isSimple_number_text (n : Number) : Identifier.isSimple n.text = false := by
  obtain ⟨c, rest, htext, rfl | hdigit⟩ := n.text_eq_cons
  · simp [Identifier.isSimple, htext, Identifier.isLetter]
  · simp [Identifier.isSimple, htext, not_isLetter_of_isDigit hdigit]

theorem lexes_number (n : Number) : Lexes n.text.toList [.literal (.number n)] := by
  apply lexes_word
  · obtain ⟨c, rest, htext, -⟩ := n.text_eq_cons
    simp [htext]
  · intro c hc
    simp [isWordChar, Json.isWordChar_of_mem_number_text hc]
  · simp [wordToken?, isSimple_number_text, Json.wordToken?_number]

theorem isWordChar_of_mem_name {name : String} (h : Identifier.isSimple name) {c : Char}
    (hc : c ∈ name.toList) : isWordChar c := by
  have hdigit (c : Char) (hc : c.isDigit) : isWordChar c := by
    simp [isWordChar, Json.isWordChar, Char.isAlphanum, hc]
  rw [Identifier.isSimple] at h
  split at h
  · cases h
  · rename_i d rest hname
    rw [hname] at hc
    simp only [Bool.and_eq_true, List.all_eq_true, Bool.or_eq_true] at h
    rcases List.mem_cons.1 hc with rfl | hc
    · simp [isWordChar, h.1]
    · rcases h.2 c hc with hletter | hc
      · simp [isWordChar, hletter]
      · exact hdigit c hc

theorem lexes_name {name : String} (h : Identifier.isSimple name) :
    Lexes name.toList [.word name] := by
  refine lexes_word ?_ (fun c hc => isWordChar_of_mem_name h hc) (by simp [wordToken?, h])
  intro hempty
  simp [Identifier.isSimple, hempty] at h

theorem lexes_literal (l : Literal) : Lexes l.toJson.text.toList [.literal l] := by
  cases l with
  | number n => exact lexes_number n
  | string s =>
    have hlexes := @lexes_string Json.escapedChar s fun c _ => Json.denotes_escapedChar c
    simpa [Literal.toJson, Json.text, Json.stringText] using hlexes

def isPlainName (name : String) : Bool :=
  name.toList.all fun c => c ≠ '\\' ∧ ¬c < ' '

theorem lexes_key {name : String} (h : isPlainName name) :
    ∃ t, Lexes (Identifier.keyText name).toList [t] ∧
      (t = .word name ∨ t = .literal (.string name)) := by
  rw [Identifier.keyText]
  split
  · rename_i hsimple
    exact ⟨.word name, lexes_name hsimple, .inl rfl⟩
  · simp only [isPlainName, List.all_eq_true, decide_eq_true_eq] at h
    have hlexes := lexes_string fun c hc => Json.denotes_quoted (h c hc).1 (h c hc).2
    exact ⟨.literal (.string name), by simpa [Identifier.quotedKey] using hlexes, .inr rfl⟩

end ApiContract.TypeText
