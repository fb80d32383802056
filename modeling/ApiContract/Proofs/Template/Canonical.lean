import ApiContract.Proofs.Except
import ApiContract.Template
import Mathlib

/-!
Templates and their parts. The parts that a template is read as are canonical, and written one after
the other they are the template again. Canonical parts, in turn, are what their template is read as,
so there is one template for each canonical list of parts.
-/

namespace ApiContract

def TemplatePart.source : TemplatePart → List Char
  | .text t => t.toList
  | .separator => ['/']
  | .param name => ':' :: name.toList
  | .wildcard => ['*']

namespace Template

def source (parts : List TemplatePart) : String :=
  String.ofList (parts.flatMap TemplatePart.source)

def specialChars : List Char :=
  ['\\', '/', ':', '*', '+', '?']

def NameChar (c : Char) : Prop :=
  'A' ≤ c ∧ c ≤ 'Z' ∨ 'a' ≤ c ∧ c ≤ 'z' ∨ '0' ≤ c ∧ c ≤ '9' ∨ c = '_'

inductive Units : List Char → Prop
  | nil : Units []
  | plain {c rest} : c ∉ specialChars → Units rest → Units (c :: rest)
  | escape {c rest} : Units rest → Units ('\\' :: c :: rest)

def NoTextFirst (parts : List TemplatePart) : Prop :=
  ∀ t, parts.head? ≠ some (.text t)

/-- What a part requires of the parts after it, so that written in a row they are read apart. -/
def Fits : TemplatePart → List TemplatePart → Prop
  | .text t, rest =>
    t ≠ "" ∧ NoTextFirst rest ∧
      (Units t.toList ∨ rest = [] ∧ ∃ units, Units units ∧ t.toList = units ++ ['\\'])
  | .param name, rest =>
    name ≠ "" ∧ (∀ c ∈ name.toList, NameChar c) ∧
      ∀ t, rest.head? = some (.text t) → ∀ c ∈ t.toList.head?, ¬NameChar c
  | .separator, _ => True
  | .wildcard, _ => True

inductive Canonical : List TemplatePart → Prop
  | nil : Canonical []
  | cons {p rest} : Fits p rest → Canonical rest → Canonical (p :: rest)

theorem isNameChar_iff {c : Char} : isNameChar c = true ↔ NameChar c := by
  simp [isNameChar, NameChar, Char.isAlphanum, Char.isAlpha, Char.isUpper, Char.isLower,
    Char.isDigit, Char.le_def, or_assoc]

instance : DecidablePred NameChar :=
  fun _ => decidable_of_iff _ isNameChar_iff

theorem Units.append {chars chars' : List Char} (h : Units chars) (h' : Units chars') :
    Units (chars ++ chars') := by
  induction h with
  | nil => exact h'
  | plain hc _ ih => exact .plain hc ih
  | escape _ ih => exact .escape ih

section Glue

variable {chars : List Char} {parts : List TemplatePart}

@[simp] theorem noTextFirst_nil : NoTextFirst [] := by
  simp [NoTextFirst]

@[simp] theorem noTextFirst_cons {p : TemplatePart} :
    NoTextFirst (p :: parts) ↔ ∀ t, p ≠ .text t := by
  simp [NoTextFirst]

def glue (chars : List Char) : List TemplatePart → List TemplatePart
  | .text t :: rest => .text (String.ofList chars ++ t) :: rest
  | parts => if chars.isEmpty then parts else .text (String.ofList chars) :: parts

theorem glue_of_noTextFirst (h : NoTextFirst parts) :
    glue chars parts = if chars.isEmpty then parts else .text (String.ofList chars) :: parts := by
  unfold glue
  split
  · simp at h
  · rfl

theorem glue_toList {t : String} (ht : t ≠ "") (h : NoTextFirst parts) :
    glue t.toList parts = .text t :: parts := by
  rw [glue_of_noTextFirst h, if_neg (by simpa using ht), String.ofList_toList]

@[simp] theorem glue_nil (parts : List TemplatePart) : glue [] parts = parts := by
  unfold glue
  split <;> simp

theorem glue_glue (chars chars' : List Char) (parts : List TemplatePart) :
    glue chars (glue chars' parts) = glue (chars ++ chars') parts := by
  cases chars' with
  | nil => rw [glue_nil, List.append_nil]
  | cons c rest =>
    cases parts with
    | nil => simp [glue]
    | cons p _ => cases p <;> simp [glue, String.append_assoc]

theorem flatMap_source_glue (chars : List Char) (parts : List TemplatePart) :
    (glue chars parts).flatMap TemplatePart.source =
      chars ++ parts.flatMap TemplatePart.source := by
  unfold glue
  split
  · simp [TemplatePart.source]
  · cases chars <;> simp [TemplatePart.source]

theorem flush_eq_glue (pending : List Char) (h : NoTextFirst parts) :
    flush pending parts = glue pending.reverse parts := by
  rw [glue_of_noTextFirst h, flush, List.isEmpty_reverse]

theorem Canonical.glue (hchars : Units chars) (h : Canonical parts) :
    Canonical (glue chars parts) := by
  cases chars with
  | nil => rwa [glue_nil]
  | cons c cs =>
    unfold Template.glue
    split
    · cases h with
      | cons hfits hrest =>
        obtain ⟨-, hnext, htext⟩ := hfits
        refine .cons ⟨by simp, hnext, ?_⟩ hrest
        rw [String.toList_append, String.toList_ofList]
        refine htext.imp hchars.append ?_
        rintro ⟨hend, units, hunits, ht⟩
        exact ⟨hend, _, hchars.append hunits, by rw [ht, List.append_assoc]⟩
    · rename_i hnext
      refine .cons ⟨by simp, ?_, .inl (by rwa [String.toList_ofList])⟩ h
      cases parts <;> simp_all

end Glue

inductive Reads : List Char → List TemplatePart → Prop
  | nil : Reads [] []
  | backslash : Reads ['\\'] [.text "\\"]
  | escape {c cs parts} : Reads cs parts → Reads ('\\' :: c :: cs) (glue ['\\', c] parts)
  | plain {c cs parts} : c ∉ specialChars → Reads cs parts → Reads (c :: cs) (glue [c] parts)
  | separator {cs parts} : Reads cs parts → Reads ('/' :: cs) (.separator :: parts)
  | wildcard {cs parts} : Reads cs parts → Reads ('*' :: cs) (.wildcard :: parts)
  | param {name cs parts} : name ≠ "" → (∀ c ∈ name.toList, NameChar c) →
    (∀ c ∈ cs.head?, ¬NameChar c) → Reads cs parts →
    Reads (':' :: (name.toList ++ cs)) (.param name :: parts)

section Scan

variable (template : String) (position : Nat) (pending : List Char) {cs : List Char}

theorem scan_escape (c : Char) :
    scan template position pending ('\\' :: c :: cs) =
      scan template (position + 1 + c.utf8Size) (c :: '\\' :: pending) cs := by
  rw [scan]

theorem scan_plain {c : Char} (h : c ∉ specialChars) :
    scan template position pending (c :: cs) =
      scan template (position + c.utf8Size) (c :: pending) cs := by
  simp only [specialChars, List.mem_cons, List.not_mem_nil, or_false, not_or] at h
  rw [scan] <;> simp [h]

theorem scan_separator :
    scan template position pending ('/' :: cs) =
      (scan template (position + 1) [] cs).map fun parts =>
        glue pending.reverse (.separator :: parts) := by
  rw [scan] <;> simp [flush_eq_glue]

theorem scan_wildcard :
    scan template position pending ('*' :: cs) =
      (scan template (position + 1) [] cs).map fun parts =>
        glue pending.reverse (.wildcard :: parts) := by
  rw [scan] <;> simp [flush_eq_glue]

theorem scan_param {name : String} (hne : name ≠ "") (hname : ∀ c ∈ name.toList, NameChar c)
    (hcs : ∀ c ∈ cs.head?, ¬NameChar c) :
    scan template position pending (':' :: (name.toList ++ cs)) =
      (scan template (position + 1 + byteLength name.toList) [] cs).map fun parts =>
        glue pending.reverse (.param name :: parts) := by
  simp only [← isNameChar_iff] at hname hcs
  have htake : (name.toList ++ cs).takeWhile isNameChar = name.toList := by
    rw [List.takeWhile_append_of_pos hname]
    cases cs <;> simp_all
  have hdrop : (name.toList ++ cs).dropWhile isNameChar = cs := by
    rw [List.dropWhile_append_of_pos hname]
    cases cs <;> simp_all
  rw [scan] <;> simp [htake, hdrop, hne, flush_eq_glue]

end Scan

theorem Reads.scan_eq {cs : List Char} {parts : List TemplatePart} (h : Reads cs parts)
    (template : String) (position : Nat) (pending : List Char) :
    scan template position pending cs = .ok (glue pending.reverse parts) := by
  induction h generalizing position pending with
  | nil => simp [scan, flush_eq_glue]
  | backslash => simp [scan, flush_eq_glue, glue]
  | escape _ ih => simp [scan_escape, ih, glue_glue]
  | plain hc _ ih => simp [scan_plain _ _ _ hc, ih, glue_glue]
  | separator _ ih => simp [scan_separator, ih, Except.map]
  | wildcard _ ih => simp [scan_wildcard, ih, Except.map]
  | param hne hname hcs _ ih => simp [scan_param _ _ _ hne hname hcs, ih, Except.map]

theorem nameChar_of_mem_takeWhile {cs : List Char} {c : Char} (h : c ∈ cs.takeWhile isNameChar) :
    NameChar c :=
  isNameChar_iff.1 (List.all_eq_true.1 List.all_takeWhile c h)

theorem not_nameChar_of_mem_head?_dropWhile {cs : List Char} {c : Char}
    (h : c ∈ (cs.dropWhile isNameChar).head?) : ¬NameChar c := by
  have hnot := List.head?_dropWhile_not isNameChar cs
  rw [Option.mem_def.1 h] at hnot
  rw [← isNameChar_iff, hnot]
  simp

theorem reads_of_scan {template : String} {position : Nat} {pending cs : List Char}
    {parts : List TemplatePart} (h : scan template position pending cs = .ok parts) :
    ∃ following, Reads cs following ∧ glue pending.reverse following = parts := by
  -- `following` is what would be found if nothing were pending
  fun_induction scan template position pending cs generalizing parts with
  | case1 position pending =>
    cases h
    exact ⟨[], .nil, (flush_eq_glue pending noTextFirst_nil).symm⟩
  | case2 position pending =>
    cases h
    exact ⟨_, .backslash, by simp [flush_eq_glue, glue]⟩
  | case3 position pending c rest ih =>
    obtain ⟨following, hfollowing, rfl⟩ := ih h
    exact ⟨_, .escape hfollowing, by simp [glue_glue]⟩
  | case4 position pending rest _ _ ih =>
    obtain ⟨_, hrest, rfl⟩ := Except.map_eq_ok.1 h
    obtain ⟨following, hfollowing, rfl⟩ := ih hrest
    exact ⟨_, .separator hfollowing, by simp [flush_eq_glue]⟩
  | case5 => cases h
  | case6 position pending rest name hname =>
    rename_i ih
    obtain ⟨_, hrest, rfl⟩ := Except.map_eq_ok.1 h
    obtain ⟨following, hfollowing, rfl⟩ := ih hrest
    have hread := @Reads.param (String.ofList name) _ _ (by simpa using hname) ?_ ?_ hfollowing
    · rw [String.toList_ofList, List.takeWhile_append_dropWhile] at hread
      exact ⟨_, hread, by simp [flush_eq_glue]⟩
    · intro c hc
      rw [String.toList_ofList] at hc
      exact nameChar_of_mem_takeWhile hc
    · intro c hc
      exact not_nameChar_of_mem_head?_dropWhile hc
  | case7 position pending rest _ _ _ _ ih =>
    obtain ⟨_, hrest, rfl⟩ := Except.map_eq_ok.1 h
    obtain ⟨following, hfollowing, rfl⟩ := ih hrest
    exact ⟨_, .wildcard hfollowing, by simp [flush_eq_glue]⟩
  | case8 => cases h
  | case9 position pending c rest hlone hescape hslash hcolon hstar hquantifier ih =>
    -- the scan gets here only if both patterns that start with a backslash have failed
    have hbackslash : c ≠ '\\' := by
      rintro rfl
      cases rest with
      | nil => exact hlone rfl rfl
      | cons d rest => exact hescape d rest rfl rfl
    obtain ⟨following, hfollowing, rfl⟩ := ih h
    exact ⟨_, .plain (by simp_all [specialChars]) hfollowing, by simp [glue_glue]⟩

theorem parse_eq_ok_iff_reads {template : String} {parts : List TemplatePart} :
    parse template = .ok parts ↔ Reads template.toList parts := by
  constructor
  · intro h
    obtain ⟨following, hreads, rfl⟩ := reads_of_scan h
    rwa [List.reverse_nil, glue_nil]
  · intro h
    rw [parse, h.scan_eq, List.reverse_nil, glue_nil]

theorem Reads.flatMap_source {cs : List Char} {parts : List TemplatePart} (h : Reads cs parts) :
    parts.flatMap TemplatePart.source = cs := by
  induction h with
  | nil => rfl
  | backslash => rfl
  | escape _ ih => rw [flatMap_source_glue, ih]; rfl
  | plain _ _ ih => rw [flatMap_source_glue, ih]; rfl
  | separator _ ih => rw [List.flatMap_cons, ih]; rfl
  | wildcard _ ih => rw [List.flatMap_cons, ih]; rfl
  | param _ _ _ _ ih => rw [List.flatMap_cons, ih]; rfl

theorem Reads.canonical {cs : List Char} {parts : List TemplatePart} (h : Reads cs parts) :
    Canonical parts := by
  induction h with
  | nil => exact .nil
  | backslash => exact .cons ⟨by simp, noTextFirst_nil, .inr ⟨rfl, [], .nil, rfl⟩⟩ .nil
  | escape _ ih => exact ih.glue (.escape .nil)
  | plain hc _ ih => exact ih.glue (.plain hc .nil)
  | separator _ ih => exact .cons trivial ih
  | wildcard _ ih => exact .cons trivial ih
  | param hne hname hcs hreads ih =>
    refine .cons ⟨hne, hname, ?_⟩ ih
    intro t ht c hc
    obtain ⟨rest, rfl⟩ := List.head?_eq_some_iff.1 ht
    apply hcs
    rw [← hreads.flatMap_source, List.flatMap_cons, TemplatePart.source, List.head?_append, hc]
    rfl

theorem Units.reads {units cs : List Char} {parts : List TemplatePart} (hunits : Units units)
    (h : Reads cs parts) : Reads (units ++ cs) (glue units parts) := by
  induction hunits with
  | nil => rwa [glue_nil]
  | plain hc _ ih => simpa [glue_glue] using Reads.plain hc ih
  | @escape c _ _ ih => simpa [glue_glue] using @Reads.escape c _ _ ih

theorem Canonical.head?_source {parts : List TemplatePart} (h : Canonical parts)
    (htext : ∀ t, parts.head? = some (.text t) → ∀ c ∈ t.toList.head?, ¬NameChar c) :
    ∀ c ∈ (parts.flatMap TemplatePart.source).head?, ¬NameChar c := by
  intro c hc
  cases h with
  | nil => cases hc
  | @cons p rest hfits _ =>
    rw [List.flatMap_cons, List.head?_append] at hc
    cases p with
    | text t =>
      rw [TemplatePart.source] at hc
      refine htext t rfl c ?_
      cases ht : t.toList with
      | nil => exact absurd (by simpa using ht) hfits.1
      | cons first _ => rwa [ht] at hc
    | separator => cases hc; decide
    | param name => cases hc; decide
    | wildcard => cases hc; decide

theorem Canonical.reads {parts : List TemplatePart} (h : Canonical parts) :
    Reads (parts.flatMap TemplatePart.source) parts := by
  induction h with
  | nil => exact .nil
  | @cons p rest hfits hrest ih =>
    rw [List.flatMap_cons]
    cases p with
    | text t =>
      obtain ⟨hne, hnext, hunits | ⟨rfl, units, hunits, ht⟩⟩ := hfits
      · rw [← glue_toList hne hnext]
        exact hunits.reads ih
      · rw [← glue_toList hne hnext, TemplatePart.source, ht, ← glue_glue, List.flatMap_nil,
          List.append_nil]
        exact hunits.reads .backslash
    | separator => exact .separator ih
    | wildcard => exact .wildcard ih
    | param name =>
      obtain ⟨hne, hname, htext⟩ := hfits
      exact .param hne hname (hrest.head?_source htext) ih

/-- Parsing a template gives the canonical parts that are written as the template. -/
theorem parse_eq_ok_iff_canonical (template : String) (parts : List TemplatePart) :
    parse template = .ok parts ↔ Canonical parts ∧ source parts = template := by
  constructor
  · intro h
    obtain ⟨following, hreads, hparts⟩ := reads_of_scan h
    rw [List.reverse_nil, glue_nil] at hparts
    rw [← hparts, source, hreads.flatMap_source, String.ofList_toList]
    exact ⟨hreads.canonical, rfl⟩
  · rintro ⟨hcanonical, rfl⟩
    rw [parse, source, String.toList_ofList, hcanonical.reads.scan_eq, List.reverse_nil, glue_nil]

example : parse "/:id\\x/*\\" =
    .ok [.separator, .param "id", .text "\\x", .separator, .wildcard, .text "\\"] := by
  cbv

end Template

end ApiContract
