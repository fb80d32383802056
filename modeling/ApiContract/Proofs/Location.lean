import ApiContract.Location
import Mathlib

/-!
A location can be told from its text. The text is read from its end, where it is always clear what
comes next: a quote inside a key has a backslash before it, and the quote that opens a key has a
bracket there. From its start it is not clear, as a key may end with a backslash.
-/

namespace ApiContract

namespace Location

def readRun (mark : Char) (cs : List Char) : List Char × List Char :=
  ((cs.takeWhile (· ≠ mark)).reverse, (cs.dropWhile (· ≠ mark)).tail)

def readKey (key : List Char) : List Char → List Char × List Char
  | [] => (key, [])
  | '"' :: '\\' :: cs => readKey ('"' :: key) cs
  | '"' :: '[' :: cs => (key, cs)
  | c :: cs => readKey (c :: key) cs

def readLast? : List Char → Option (Segment × List Char)
  | [] => none
  | ']' :: '"' :: cs =>
    let key := readKey [] cs
    some (.field (String.ofList key.1), key.2)
  | ']' :: cs =>
    let digits := readRun '[' cs
    some (.index (Nat.ofDigitChars 10 digits.1 0), digits.2)
  | cs =>
    let key := readRun '.' cs
    some (.field (String.ofList key.1), key.2)

theorem ne_mark_of_mem_reverse {mark : Char} {run : List Char} (h : mark ∉ run) :
    ∀ c ∈ run.reverse, decide (c ≠ mark) = true := by
  intro c hc
  simpa using ne_of_mem_of_not_mem (List.mem_reverse.1 hc) h

theorem readRun_append {mark : Char} {run : List Char} (h : mark ∉ run) (before : List Char) :
    readRun mark (run.reverse ++ mark :: before) = (run, before) := by
  have hrun := ne_mark_of_mem_reverse h
  rw [readRun, List.takeWhile_append_of_pos hrun, List.dropWhile_append_of_pos hrun]
  simp

theorem readRun_of_not_mem {mark : Char} {run : List Char} (h : mark ∉ run) :
    readRun mark run.reverse = (run, []) := by
  have hrun := ne_mark_of_mem_reverse h
  rw [readRun, List.takeWhile_eq_self_iff.2 hrun, List.dropWhile_eq_nil_iff.2 hrun]
  simp

theorem readKey_escaped (key read before : List Char) :
    readKey read ((key.flatMap fun c => if c = '"' then ['\\', '"'] else [c]).reverse ++
      '"' :: '[' :: before) = (key ++ read, before) := by
  -- the last character of the key is read first
  induction key using List.reverseRecOn generalizing read with
  | nil => rfl
  | append_singleton key c ih => by_cases hc : c = '"' <;> simp [hc, readKey, ih]

theorem readLast?_quoted {key : String} (h : Identifier.isSimple key = false) (before : String) :
    readLast? (Segment.appendTo before (.field key)).toList.reverse =
      some (.field key, before.toList.reverse) := by
  have htext : (Segment.appendTo before (.field key)).toList.reverse = ']' :: '"' ::
      ((key.toList.flatMap fun c => if c = '"' then ['\\', '"'] else [c]).reverse ++
        '"' :: '[' :: before.toList.reverse) := by
    simp [Segment.appendTo, h, Identifier.quotedKey]
  rw [htext, readLast?, readKey_escaped]
  simp

theorem readLast?_index (i : Nat) (before : String) :
    readLast? (Segment.appendTo before (.index i)).toList.reverse =
      some (.index i, before.toList.reverse) := by
  have hdigits {c : Char} (hc : c.isDigit = false) : c ∉ Nat.toDigits 10 i := by
    intro hmem
    simp [Nat.isDigit_of_mem_toDigits (by decide) (by decide) hmem] at hc
  have htext : (Segment.appendTo before (.index i)).toList.reverse =
      ']' :: ((Nat.toDigits 10 i).reverse ++ '[' :: before.toList.reverse) := by
    simp [Segment.appendTo]
  rw [htext, readLast?, readRun_append (hdigits (by decide))]
  · simp
  · -- no digit is a quote, so this is no key
    intro cs hcs
    rcases List.append_eq_cons_iff.1 hcs with ⟨_, hmark⟩ | ⟨digits, hmem, _⟩
    · simp at hmark
    · exact hdigits (c := '"') (by decide) (List.mem_reverse.1 (by simp [hmem]))

theorem readLast?_simple {key : String} (h : Identifier.isSimple key = true) (before : String) :
    readLast? (Segment.appendTo before (.field key)).toList.reverse =
      some (.field key, before.toList.reverse) := by
  have hpoint : '.' ∉ key.toList := Identifier.not_mem_of_isSimple h (by decide) (by decide)
  have hbracket : ']' ∉ key.toList := Identifier.not_mem_of_isSimple h (by decide) (by decide)
  have hread : readRun '.' (Segment.appendTo before (.field key)).toList.reverse =
      (key.toList, before.toList.reverse) := by
    by_cases hbefore : before = ""
    · simpa [Segment.appendTo, h, hbefore] using readRun_of_not_mem hpoint
    · simpa [Segment.appendTo, h, hbefore] using readRun_append hpoint before.toList.reverse
  -- a key is not empty, and it does not end with a bracket
  rcases List.eq_nil_or_concat' key.toList with hempty | ⟨init, c, hkey⟩
  · simp [Identifier.isSimple, hempty] at h
  · have hc : c ≠ ']' := by
      rintro rfl
      simp [hkey] at hbracket
    obtain ⟨cs, hcs⟩ : ∃ cs, (Segment.appendTo before (.field key)).toList.reverse = c :: cs := by
      by_cases hbefore : before = "" <;> simp [Segment.appendTo, h, hbefore, hkey]
    rw [hcs] at hread ⊢
    rw [readLast?, hread]
    · simp
    · simp
    · rintro _ ⟨⟩
      exact hc rfl
    · rintro _ ⟨⟩
      exact hc rfl

theorem readLast?_appendTo (before : String) (s : Segment) :
    readLast? (s.appendTo before).toList.reverse = some (s, before.toList.reverse) := by
  cases s with
  | index i => exact readLast?_index i before
  | field key =>
    cases h : Identifier.isSimple key with
    | true => exact readLast?_simple h before
    | false => exact readLast?_quoted h before

theorem text_concat (location : Location) (s : Segment) :
    text (location ++ [s]) = s.appendTo location.text := by
  rw [text, text, List.foldl_append]
  rfl

theorem readLast?_text (location : Location) :
    readLast? location.text.toList.reverse =
      location.getLast?.map fun s => (s, (text location.dropLast).toList.reverse) := by
  rcases List.eq_nil_or_concat' location with rfl | ⟨before, s, rfl⟩
  · rfl
  · rw [text_concat, readLast?_appendTo]
    simp

/-- Rendering is injective: different locations have different texts. -/
theorem text_inj {location location' : Location} :
    location.text = location'.text ↔ location = location' := by
  refine ⟨fun h => ?_, fun h => h ▸ rfl⟩
  induction location using List.reverseRecOn generalizing location' with
  | nil =>
    have hlast := readLast?_text location'
    rw [← h, readLast?_text] at hlast
    simpa using hlast.symm
  | append_singleton location s ih =>
    have hlast := readLast?_text location'
    rw [← h, readLast?_text, eq_comm] at hlast
    obtain ⟨hs, hbefore⟩ : location'.getLast? = some s ∧
        text location'.dropLast = text location := by
      simpa [String.toList_inj] using hlast
    rw [ih hbefore.symm]
    exact List.dropLast_append_getLast? s hs

end Location

end ApiContract
