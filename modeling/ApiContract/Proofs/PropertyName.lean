import ApiContract.Proofs.Json.StringBody
import ApiContract.Identifier
import Mathlib

/-!
The name of a property as the client's language reads it: an identifier, or a string between double
quotes with the escapes of that language. A key reads back as itself exactly if it has no backslash
and no line break.
-/

namespace ApiContract.PropertyName

def letterEscapes : List (Char × Nat) :=
  [('b', 0x08), ('t', 0x09), ('n', 0x0a), ('v', 0x0b), ('f', 0x0c), ('r', 0x0d)]

def isLineBreak (c : Char) : Bool :=
  c = '\n' || c = '\r'

def isContinuation (c : Char) : Bool :=
  isLineBreak c || c = '\u2028' || c = '\u2029'

def readHex? (count : Nat) (cs : List Char) : Option (Option Nat × List Char) :=
  if count ≤ cs.length ∧ (cs.take count).all Numeral.isHexDigit then
    some (some (Numeral.digitsValue 16 (cs.take count)), cs.drop count)
  else
    none

def readBraced? (cs : List Char) : Option (Option Nat × List Char) :=
  let digits := cs.takeWhile Numeral.isHexDigit
  match cs.dropWhile Numeral.isHexDigit with
  | '}' :: rest =>
    if digits ≠ [] ∧ Numeral.digitsValue 16 digits < 0x110000 then
      some (some (Numeral.digitsValue 16 digits), rest)
    else
      none
  | _ => none

def readCodePoint? (cs : List Char) : Option (Option Nat × List Char) :=
  if cs.head? = some '{' then readBraced? cs.tail else readHex? 4 cs

/-- Reads an escape after its backslash; `none` in the result stands for a line continuation. A
digit is an escape only if it is a zero with no digit after it, and other characters stand for
themselves. -/
def readEscape? : List Char → Option (Option Nat × List Char)
  | [] => none
  | c :: cs =>
    if c = 'x' then
      readHex? 2 cs
    else if c = 'u' then
      readCodePoint? cs
    else if c.isDigit then
      if c = '0' ∧ cs.head?.all (!·.isDigit) then some (some 0, cs) else none
    else if c = '\r' ∧ cs.head? = some '\n' then
      some (none, cs.tail)
    else if isContinuation c then
      some (none, cs)
    else
      some (some ((letterEscapes.lookup c).getD c.toNat), cs)

def Takes (cs rest : List Char) : Prop :=
  ∃ c taken, cs = c :: (taken ++ rest) ∧ '"' ∉ taken ∧ '\\' ∉ taken

theorem not_mem_of_all_isHexDigit {digits : List Char} (h : digits.all Numeral.isHexDigit) :
    '"' ∉ digits ∧ '\\' ∉ digits := by
  rw [List.all_eq_true] at h
  exact ⟨fun hmem => absurd (h _ hmem) (by decide), fun hmem => absurd (h _ hmem) (by decide)⟩

theorem takes_of_readHex? {count : Nat} {c : Char} {cs rest : List Char} {unit : Option Nat}
    (h : readHex? count cs = some (unit, rest)) : Takes (c :: cs) rest := by
  rw [readHex?] at h
  split at h
  · rename_i hdigits
    obtain ⟨-, rfl⟩ := Prod.mk.inj (Option.some.inj h)
    exact ⟨c, cs.take count, by simp, not_mem_of_all_isHexDigit hdigits.2⟩
  · cases h

theorem takes_of_readBraced? {c : Char} {cs rest : List Char} {unit : Option Nat}
    (h : readBraced? cs = some (unit, rest)) : Takes (c :: '{' :: cs) rest := by
  rw [readBraced?] at h
  split at h
  · rename_i following hrest
    split at h
    · obtain ⟨-, rfl⟩ := Prod.mk.inj (Option.some.inj h)
      have hsplit : cs = cs.takeWhile Numeral.isHexDigit ++ '}' :: following := by
        rw [← hrest, List.takeWhile_append_dropWhile]
      obtain ⟨hquote, hbackslash⟩ := not_mem_of_all_isHexDigit
        (List.all_takeWhile (l := cs) (p := Numeral.isHexDigit))
      refine ⟨c, '{' :: cs.takeWhile Numeral.isHexDigit ++ ['}'], ?_, ?_, ?_⟩
      · rw [List.append_assoc, List.singleton_append, List.cons_append, ← hsplit]
      · simp [hquote]
      · simp [hbackslash]
    · cases h
  · cases h

theorem takes_of_readCodePoint? {c : Char} {cs rest : List Char} {unit : Option Nat}
    (h : readCodePoint? cs = some (unit, rest)) : Takes (c :: cs) rest := by
  rw [readCodePoint?] at h
  split at h
  · rename_i hbrace
    rw [List.eq_cons_of_mem_head? hbrace]
    exact takes_of_readBraced? h
  · exact takes_of_readHex? h

theorem takes_of_readEscape? {cs rest : List Char} {unit : Option Nat}
    (h : readEscape? cs = some (unit, rest)) : Takes cs rest := by
  cases cs with
  | nil => cases h
  | cons c cs =>
    have hone (unit' : Option Nat) (h : some (unit', cs) = some (unit, rest)) :
        Takes (c :: cs) rest := by
      obtain ⟨-, rfl⟩ := Prod.mk.inj (Option.some.inj h)
      exact ⟨c, [], rfl, List.not_mem_nil, List.not_mem_nil⟩
    rw [readEscape?] at h
    split_ifs at h with hx hu hdigit hzero hreturn
    · exact takes_of_readHex? h
    · exact takes_of_readCodePoint? h
    · exact hone _ h
    · obtain ⟨-, rfl⟩ := Prod.mk.inj (Option.some.inj h)
      refine ⟨c, ['\n'], ?_, by decide, by decide⟩
      rw [List.singleton_append, ← List.eq_cons_of_mem_head? hreturn.2]
    · exact hone _ h
    · exact hone _ h

theorem Takes.length_lt {cs rest : List Char} (h : Takes cs rest) : rest.length < cs.length := by
  obtain ⟨c, taken, rfl, -⟩ := h
  simp

def readBody? : List Char → Option (List Nat × List Char)
  | [] => none
  | c :: cs =>
    if c = '"' then
      some ([], cs)
    else if c = '\\' then
      match _h : readEscape? cs with
      | some (unit, rest) => (readBody? rest).map fun p => (unit.toList ++ p.1, p.2)
      | none => none
    else if isLineBreak c then
      none
    else
      (readBody? cs).map fun p => (c.toNat :: p.1, p.2)
termination_by cs => cs.length
decreasing_by
  · exact (takes_of_readEscape? ‹_›).length_lt.trans (Nat.lt_succ_self _)
  · exact Nat.lt_succ_self _

def isNameChar (c : Char) : Bool :=
  Identifier.isLetter c || c.isDigit

def read? : List Char → Option (String × List Char)
  | [] => none
  | c :: cs =>
    if c = '"' then do
      let (units, rest) ← readBody? cs
      return (String.ofList (← Json.joinUnits units), rest)
    else if Identifier.isLetter c then
      some (String.ofList (c :: cs.takeWhile isNameChar), cs.dropWhile isNameChar)
    else
      none

/-- An escape is at least one character longer than what it denotes, and at most two of its
characters are quotes or backslashes. So the units, and half of the quotes and backslashes in the
text, add up to at most the length of the text. -/
theorem exists_body_of_readBody? {cs rest : List Char} {units : List Nat}
    (h : readBody? cs = some (units, rest)) :
    ∃ body, cs = body ++ '"' :: rest ∧
      2 * units.length + body.count '"' + body.count '\\' ≤ 2 * body.length := by
  fun_induction readBody? cs generalizing units rest with
  | case1 => cases h
  | case2 cs =>
    obtain ⟨rfl, rfl⟩ := Prod.mk.inj (Option.some.inj h)
    exact ⟨[], rfl, le_rfl⟩
  | case3 cs unit following hescape _ ih =>
    obtain ⟨⟨units, rest⟩, hbody, heq⟩ := Option.map_eq_some_iff.1 h
    obtain ⟨rfl, rfl⟩ := Prod.mk.inj heq
    obtain ⟨body, rfl, hcost⟩ := ih hbody
    obtain ⟨c, taken, rfl, hquote, hbackslash⟩ := takes_of_readEscape? hescape
    refine ⟨'\\' :: c :: (taken ++ body), by simp, ?_⟩
    have hunit : unit.toList.length ≤ 1 := by cases unit <;> simp
    have hchar : [c].count '"' + [c].count '\\' ≤ 1 := by
      by_cases hc : c = '"'
      · simp [hc]
      · have := List.count_le_length (a := '\\') (l := [c])
        simpa [hc] using this
    have hcount (d : Char) (hd : d ∉ taken) : ('\\' :: c :: (taken ++ body)).count d =
        ['\\'].count d + [c].count d + body.count d := by
      rw [← List.singleton_append, ← List.singleton_append (x := c), List.count_append,
        List.count_append, List.count_append, List.count_eq_zero.2 hd]
      omega
    rw [hcount _ hquote, hcount _ hbackslash]
    simp only [List.length_cons, List.length_append]
    have : ['\\'].count '"' = 0 := rfl
    have : ['\\'].count '\\' = 1 := rfl
    omega
  | case4 => cases h
  | case5 => cases h
  | case6 c cs hquote hbackslash _ ih =>
    obtain ⟨⟨units, rest⟩, hbody, heq⟩ := Option.map_eq_some_iff.1 h
    obtain ⟨rfl, rfl⟩ := Prod.mk.inj heq
    obtain ⟨body, rfl, hcost⟩ := ih hbody
    refine ⟨c :: body, rfl, ?_⟩
    simp only [List.count_cons_of_ne hquote, List.count_cons_of_ne hbackslash, List.length_cons]
    omega

theorem length_le_of_joinUnits {units : List Nat} {cs : List Char}
    (h : Json.joinUnits units = some cs) : cs.length ≤ units.length := by
  fun_induction Json.joinUnits units generalizing cs with
  | case1 =>
    obtain rfl := Option.some.inj h
    exact le_rfl
  | case2 high _ low rest _ ih =>
    obtain ⟨cs, hcs, rfl⟩ := Option.map_eq_some_iff.1 h
    have := ih hcs
    simp only [List.length_cons]
    omega
  | case3 => cases h
  | case4 => cases h
  | case5 => cases h
  | case6 unit rest _ _ ih =>
    obtain ⟨cs, hcs, rfl⟩ := Option.map_eq_some_iff.1 h
    exact Nat.succ_le_succ (ih hcs)

def quotedChar (c : Char) : List Char :=
  if c = '"' then ['\\', '"'] else [c]

theorem toList_quotedKey (key : String) :
    (Identifier.quotedKey key).toList = '"' :: (key.toList.flatMap quotedChar ++ ['"']) :=
  String.toList_ofList

theorem length_quoted (cs : List Char) :
    (cs.flatMap quotedChar).length = cs.length + cs.count '"' := by
  induction cs with
  | nil => rfl
  | cons c rest ih =>
    rw [List.flatMap_cons, List.length_append, ih]
    by_cases hc : c = '"'
    · simp [quotedChar, hc]
      omega
    · simp [quotedChar, hc]
      omega

theorem count_quoted (cs : List Char) :
    (cs.flatMap quotedChar).count '"' = cs.count '"' ∧
      (cs.flatMap quotedChar).count '\\' = cs.count '\\' + cs.count '"' := by
  induction cs with
  | nil => exact ⟨rfl, rfl⟩
  | cons c rest ih =>
    rw [List.flatMap_cons, List.count_append, List.count_append, ih.1, ih.2]
    by_cases hc : c = '"'
    · simp [quotedChar, hc]
      omega
    · simp [quotedChar, hc, List.count_cons]
      omega

theorem readBody?_escapedQuote (cs : List Char) :
    readBody? ('\\' :: '"' :: cs) = (readBody? cs).map fun p => ('"'.toNat :: p.1, p.2) := by
  have hescape : readEscape? ('"' :: cs) = some (some '"'.toNat, cs) := rfl
  rw [readBody?, if_neg (by decide), if_pos rfl]
  split
  · rename_i unit rest h
    obtain ⟨rfl, rfl⟩ := Prod.mk.inj (Option.some.inj (hescape.symm.trans h))
    rfl
  · rename_i h
    cases hescape.symm.trans h

theorem readBody?_quoted {cs : List Char} (h : '\\' ∉ cs) (rest : List Char) :
    readBody? (cs.flatMap quotedChar ++ '"' :: rest) =
      if cs.any isLineBreak then none else some (cs.map Char.toNat, rest) := by
  induction cs with
  | nil => simp [readBody?]
  | cons c cs ih =>
    rw [List.mem_cons, not_or] at h
    rw [List.flatMap_cons, List.append_assoc, quotedChar, List.any_cons]
    split
    · rename_i hc
      have hbreak : isLineBreak c = false := by rw [hc]; decide
      rw [List.cons_append, List.singleton_append, readBody?_escapedQuote, ih h.2, hbreak,
        Bool.false_or, hc]
      split <;> rfl
    · rename_i hc
      rw [List.singleton_append, readBody?, if_neg hc, if_neg (Ne.symm h.1), ih h.2]
      cases isLineBreak c with
      | true => rfl
      | false => cases cs.any isLineBreak <;> rfl

theorem read?_quotedKey {key : String} (h : '\\' ∉ key.toList) (rest : List Char) :
    read? ((Identifier.quotedKey key).toList ++ rest) =
      if key.toList.any isLineBreak then none else some (key, rest) := by
  rw [toList_quotedKey, List.cons_append, List.append_assoc, List.singleton_append, read?,
    if_pos rfl, readBody?_quoted h]
  split
  · rfl
  · simp [Json.joinUnits_toNat]

theorem read?_of_isSimple {key : String} (h : Identifier.isSimple key) {rest : List Char}
    (hrest : rest.head?.any isNameChar = false) :
    read? (key.toList ++ rest) = some (key, rest) := by
  rw [Identifier.isSimple] at h
  split at h
  · cases h
  · rename_i c cs hkey
    rw [Bool.and_eq_true, List.all_eq_true] at h
    have hquote : c ≠ '"' := by
      rintro rfl
      exact absurd h.1 (by decide)
    have hcs : ∀ d ∈ cs, isNameChar d := h.2
    have hstop : rest.takeWhile isNameChar = [] ∧ rest.dropWhile isNameChar = rest := by
      cases rest with
      | nil => exact ⟨rfl, rfl⟩
      | cons d rest =>
        have hd : isNameChar d = false := hrest
        simp [hd]
    rw [hkey, List.cons_append, read?, if_neg hquote, if_pos h.1, List.takeWhile_append_of_pos hcs,
      List.dropWhile_append_of_pos hcs, hstop.1, hstop.2, List.append_nil, ← hkey,
      String.ofList_toList]

theorem not_mem_of_read?_quotedKey {key : String} {rest : List Char}
    (h : read? ((Identifier.quotedKey key).toList ++ rest) = some (key, rest)) :
    '\\' ∉ key.toList := by
  -- the cost of a string leaves no room for a backslash that stands for itself
  rw [toList_quotedKey, List.cons_append, List.append_assoc, List.singleton_append, read?,
    if_pos rfl] at h
  obtain ⟨⟨units, following⟩, hbody, h⟩ := Option.bind_eq_some_iff.1 h
  obtain ⟨cs, hcs, h⟩ := Option.bind_eq_some_iff.1 h
  obtain ⟨hkey, rfl⟩ := Prod.mk.inj (Option.some.inj h)
  obtain ⟨body, heq, hcost⟩ := exists_body_of_readBody? hbody
  obtain rfl := List.append_cancel_right heq
  have hlength : key.toList.length ≤ units.length := by
    rw [← hkey, String.toList_ofList]
    exact length_le_of_joinUnits hcs
  rw [length_quoted, (count_quoted _).1, (count_quoted _).2] at hcost
  rw [← List.count_eq_zero]
  omega

theorem read?_quotedKey_iff {key : String} {rest : List Char} :
    read? ((Identifier.quotedKey key).toList ++ rest) = some (key, rest) ↔
      '\\' ∉ key.toList ∧ key.toList.any isLineBreak = false := by
  constructor
  · intro h
    have hbackslash := not_mem_of_read?_quotedKey h
    rw [read?_quotedKey hbackslash] at h
    refine ⟨hbackslash, Bool.eq_false_iff.2 fun hbreak => ?_⟩
    rw [if_pos hbreak] at h
    cases h
  · rintro ⟨hbackslash, hbreak⟩
    rw [read?_quotedKey hbackslash, hbreak, if_neg Bool.false_ne_true]

theorem plain_of_isSimple {key : String} (h : Identifier.isSimple key) :
    '\\' ∉ key.toList ∧ key.toList.any isLineBreak = false := by
  refine ⟨Identifier.not_mem_of_isSimple h (by decide) (by decide), ?_⟩
  rw [List.any_eq_false]
  intro c hc hbreak
  obtain rfl | rfl : c = '\n' ∨ c = '\r' := by simpa [isLineBreak] using hbreak
  · exact Identifier.not_mem_of_isSimple h (by decide) (by decide) hc
  · exact Identifier.not_mem_of_isSimple h (by decide) (by decide) hc

/-- Before anything that cannot continue a name, a written key reads back as itself exactly if it
has no backslash and no line break. -/
theorem keyText_reads_back_iff (key : String) {rest : List Char}
    (hrest : rest.head?.any isNameChar = false) :
    read? ((Identifier.keyText key).toList ++ rest) = some (key, rest) ↔
      '\\' ∉ key.toList ∧ key.toList.any isLineBreak = false := by
  rw [Identifier.keyText]
  split
  · rename_i hsimple
    exact iff_of_true (read?_of_isSimple hsimple hrest) (plain_of_isSimple hsimple)
  · exact read?_quotedKey_iff

theorem keyText_reads_back_before_type :
    read? ((Identifier.keyText "a-\"b").toList ++ "?: string".toList) =
      some ("a-\"b", "?: string".toList) :=
  (keyText_reads_back_iff "a-\"b" (by decide)).2 (by decide)

theorem keyText_of_backslash_misread :
    read? (Identifier.keyText "\\").toList = none ∧
      read? (Identifier.keyText "\\\"").toList = some ("\\", ['"']) :=
  ⟨by cbv, by cbv⟩

end ApiContract.PropertyName
