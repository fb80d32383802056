import ApiContract.Proofs.Template.Canonical

namespace ApiContract

def TemplateError.position : TemplateError → Nat
  | .emptyParamName _ position => position
  | .unsupportedQuantifier _ _ position => position

namespace Template

inductive Paired : List Char → Prop
  | nil : Paired []
  | plain {c rest} : c ≠ '\\' → Paired rest → Paired (c :: rest)
  | escape {c rest} : Paired rest → Paired ('\\' :: c :: rest)

def Offends (c : Char) (after : List Char) : Prop :=
  c = '+' ∨ c = '?' ∨ c = ':' ∧ ∀ d ∈ after.head?, ¬NameChar d

structure OffendsAt (template before : String) (c : Char) (after : String) : Prop where
  split : template = before ++ String.singleton c ++ after
  paired : Paired before.toList
  offends : Offends c after.toList

def faultOf (template : String) (c : Char) (position : Nat) : TemplateError :=
  if c = ':' then .emptyParamName template position else .unsupportedQuantifier template c position

theorem faultOf_position (template : String) (c : Char) (position : Nat) :
    (faultOf template c position).position = position := by
  unfold faultOf
  split <;> rfl

theorem byteLength_append (cs ds : List Char) :
    byteLength (cs ++ ds) = byteLength cs + byteLength ds := by
  induction cs with
  | nil => simp [byteLength]
  | cons c rest ih => rw [List.cons_append, byteLength, byteLength, ih, Nat.add_assoc]

theorem byteLength_toList (s : String) : byteLength s.toList = s.utf8ByteSize := by
  have hchars (cs : List Char) : byteLength cs = String.utf8Len cs := by
    induction cs with
    | nil => rfl
    | cons c rest ih => rw [byteLength, ih, String.utf8Len_cons, Nat.add_comm]
  rw [hchars, ← String.utf8ByteSize_ofList, String.ofList_toList]

theorem Offends.not_nameChar {c : Char} {after : List Char} (h : Offends c after) :
    ¬NameChar c := by
  rcases h with rfl | rfl | ⟨rfl, _⟩ <;> decide

theorem scan_offending {c : Char} {after : List Char} (h : Offends c after) (template : String)
    (position : Nat) (pending : List Char) :
    scan template position pending (c :: after) = .error (faultOf template c position) := by
  rcases h with rfl | rfl | ⟨rfl, hafter⟩
  · rw [scan] <;> simp [faultOf]
  · rw [scan] <;> simp [faultOf]
  · have hname : after.takeWhile isNameChar = [] := by
      cases after with
      | nil => rfl
      | cons d rest => simpa [isNameChar_iff] using hafter
    rw [scan] <;> simp [faultOf, hname]

theorem offends_colon_or_name (rest : List Char) :
    Offends ':' rest ∨ ∃ (name : String) (cs : List Char), rest = name.toList ++ cs ∧ name ≠ "" ∧
      (∀ c ∈ name.toList, NameChar c) ∧ ∀ c ∈ cs.head?, ¬NameChar c := by
  have hrest := List.takeWhile_append_dropWhile (p := isNameChar) (l := rest)
  have hnext : ∀ c ∈ (rest.dropWhile isNameChar).head?, ¬NameChar c :=
    fun c hc => not_nameChar_of_mem_head?_dropWhile hc
  by_cases hname : rest.takeWhile isNameChar = []
  · rw [hname, List.nil_append] at hrest
    rw [hrest] at hnext
    exact .inl (.inr (.inr ⟨rfl, hnext⟩))
  · refine .inr ⟨String.ofList (rest.takeWhile isNameChar), _, ?_, by simpa using hname, ?_, hnext⟩
    · rw [String.toList_ofList, hrest]
    · intro c hc
      rw [String.toList_ofList] at hc
      exact nameChar_of_mem_takeWhile hc

theorem ne_backslash {c : Char} (h : c ∉ specialChars) : c ≠ '\\' := by
  rintro rfl
  exact h (by decide)

theorem paired_cons_iff {c : Char} {rest : List Char} (hc : c ≠ '\\') :
    Paired (c :: rest) ↔ Paired rest := by
  constructor
  · intro h
    cases h with
    | plain _ hrest => exact hrest
    | escape => exact absurd rfl hc
  · exact .plain hc

theorem paired_escape_iff {c : Char} {rest : List Char} :
    Paired ('\\' :: c :: rest) ↔ Paired rest := by
  constructor
  · intro h
    cases h with
    | plain hne => exact absurd rfl hne
    | escape hrest => exact hrest
  · exact .escape

theorem paired_param_iff {name rest : List Char} (hname : ∀ c ∈ name, NameChar c) :
    Paired (':' :: (name ++ rest)) ↔ Paired rest := by
  rw [paired_cons_iff (by decide)]
  induction name with
  | nil => rfl
  | cons c name ih =>
    obtain ⟨hc, hname⟩ := List.forall_mem_cons.1 hname
    have hbackslash : c ≠ '\\' := by
      rintro rfl
      exact absurd hc (by decide)
    rw [List.cons_append, paired_cons_iff hbackslash, ih hname]

@[elab_as_elim]
theorem unit_induction {motive : List Char → Prop} (nil : motive []) (lone : motive ['\\'])
    (escape : ∀ c cs, motive cs → motive ('\\' :: c :: cs))
    (plain : ∀ c cs, c ∉ specialChars → motive cs → motive (c :: cs))
    (separator : ∀ cs, motive cs → motive ('/' :: cs))
    (wildcard : ∀ cs, motive cs → motive ('*' :: cs))
    (param : ∀ (name : String) (cs : List Char), name ≠ "" → (∀ c ∈ name.toList, NameChar c) →
      (∀ c ∈ cs.head?, ¬NameChar c) → motive cs → motive (':' :: (name.toList ++ cs)))
    (offending : ∀ c cs, Offends c cs → motive (c :: cs)) (cs : List Char) : motive cs := by
  induction hlength : cs.length using Nat.strong_induction_on generalizing cs with
  | _ n ih =>
    subst hlength
    cases cs with
    | nil => exact nil
    | cons c rest =>
      by_cases hplain : c ∉ specialChars
      · exact plain c rest hplain (ih _ (by simp) rest rfl)
      · simp only [specialChars, List.mem_cons, List.not_mem_nil, or_false, not_not] at hplain
        rcases hplain with rfl | rfl | rfl | rfl | rfl | rfl
        -- one case for each of the special characters, in their order
        · cases rest with
          | nil => exact lone
          | cons d rest => exact escape d rest (ih _ (by simp) rest rfl)
        · exact separator rest (ih _ (by simp) rest rfl)
        · rcases offends_colon_or_name rest with hcolon | ⟨name, cs, rfl, hne, hname, hcs⟩
          · exact offending ':' rest hcolon
          · exact param name cs hne hname hcs (ih _ (by simp) cs rfl)
        · exact wildcard rest (ih _ (by simp) rest rfl)
        · exact offending '+' rest (.inl rfl)
        · exact offending '?' rest (.inr (.inl rfl))

structure Stops (cs before : List Char) (c : Char) (after : List Char) : Prop where
  split : cs = before ++ c :: after
  reads : ∃ parts, Reads before parts
  paired : Paired before
  offends : Offends c after

def ReadsOrStops (cs : List Char) : Prop :=
  (∃ parts, Reads cs parts) ∨ ∃ before c after, Stops cs before c after

section Stops

variable {cs before after : List Char} {c : Char} {parts : List TemplatePart}

theorem ReadsOrStops.prepend (h : ReadsOrStops cs) (start : List Char)
    (hreads : ∀ before parts, before <+: cs → Reads before parts →
      ∃ parts', Reads (start ++ before) parts')
    (hpaired : ∀ before, Paired before → Paired (start ++ before)) :
    ReadsOrStops (start ++ cs) := by
  rcases h with ⟨parts, h⟩ | ⟨before, c, after, hsplit, ⟨parts, h⟩, hbefore, hoffends⟩
  · exact .inl (hreads cs parts (List.prefix_refl cs) h)
  · refine .inr ⟨start ++ before, c, after, ?_, ?_, hpaired before hbefore, hoffends⟩
    · rw [hsplit, List.append_assoc]
    · exact hreads before parts (hsplit ▸ List.prefix_append _ _) h

theorem readsOrStops (cs : List Char) : ReadsOrStops cs := by
  induction cs using unit_induction with
  | nil => exact .inl ⟨_, .nil⟩
  | lone => exact .inl ⟨_, .backslash⟩
  | escape d cs ih => exact ih.prepend ['\\', d] (fun _ _ _ h => ⟨_, .escape h⟩) fun _ => .escape
  | plain d cs hd ih =>
    exact ih.prepend [d] (fun _ _ _ h => ⟨_, .plain hd h⟩) fun _ => .plain (ne_backslash hd)
  | separator cs ih =>
    exact ih.prepend ['/'] (fun _ _ _ h => ⟨_, .separator h⟩) fun _ => .plain (by decide)
  | wildcard cs ih =>
    exact ih.prepend ['*'] (fun _ _ _ h => ⟨_, .wildcard h⟩) fun _ => .plain (by decide)
  | param name cs hne hname hcs ih =>
    refine ih.prepend (':' :: name.toList) ?_ fun _ => (paired_param_iff hname).2
    rintro before parts ⟨_, rfl⟩ h
    refine ⟨_, .param hne hname (fun d hd => hcs d ?_) h⟩
    rw [List.head?_append, hd]
    rfl
  | offending d cs hd => exact .inr ⟨[], d, cs, rfl, ⟨_, .nil⟩, .nil, hd⟩

theorem Reads.scan_append_offending (h : Reads before parts) (hpaired : Paired before)
    (hoffends : Offends c after) (template : String) (position : Nat) (pending : List Char) :
    scan template position pending (before ++ c :: after) =
      .error (faultOf template c (position + byteLength before)) := by
  induction h generalizing position pending with
  | nil => exact scan_offending hoffends template position pending
  | backslash =>
    cases hpaired with
    | plain hne => exact absurd rfl hne
  | escape _ ih =>
    rw [List.cons_append, List.cons_append, scan_escape, ih (paired_escape_iff.1 hpaired),
      Nat.add_assoc, Nat.add_assoc]
    rfl
  | plain hd _ ih =>
    rw [paired_cons_iff (ne_backslash hd)] at hpaired
    rw [List.cons_append, scan_plain _ _ _ hd, ih hpaired, Nat.add_assoc]
    rfl
  | separator _ ih =>
    rw [paired_cons_iff (by decide)] at hpaired
    rw [List.cons_append, scan_separator, ih hpaired, Nat.add_assoc]
    rfl
  | wildcard _ ih =>
    rw [paired_cons_iff (by decide)] at hpaired
    rw [List.cons_append, scan_wildcard, ih hpaired, Nat.add_assoc]
    rfl
  | @param name rest _ hne hname hrest _ ih =>
    have hnext : ∀ d ∈ (rest ++ c :: after).head?, ¬NameChar d := by
      cases rest with
      | nil => simpa using hoffends.not_nameChar
      | cons d rest => exact hrest
    rw [List.cons_append, List.append_assoc, scan_param _ _ _ hne hname hnext,
      ih ((paired_param_iff hname).1 hpaired), Nat.add_assoc, Nat.add_assoc, ← byteLength_append]
    rfl

theorem Stops.scan_eq (h : Stops cs before c after) (template : String) :
    scan template 0 [] cs = .error (faultOf template c (byteLength before)) := by
  obtain ⟨parts, hparts⟩ := h.reads
  rw [h.split, hparts.scan_append_offending h.paired h.offends, Nat.zero_add]

theorem exists_stops (hpaired : Paired before) (hoffends : Offends c after) :
    ∃ first d following, Stops (before ++ c :: after) first d following ∧
      byteLength first ≤ byteLength before := by
  -- the scan stops at the given character unless an earlier one offends
  rcases readsOrStops before with hreads | ⟨first, d, following, rfl, hreads, hfirst, hd⟩
  · exact ⟨before, c, after, ⟨rfl, hreads, hpaired, hoffends⟩, le_rfl⟩
  · refine ⟨first, d, following ++ c :: after, ⟨by simp, hreads, hfirst, ?_⟩, ?_⟩
    · -- a colon right before the offending character has no name after it either
      refine hd.imp_right (Or.imp_right (And.imp_right fun hfollowing => ?_))
      cases following with
      | nil => simpa using hoffends.not_nameChar
      | cons x rest => exact hfollowing
    · rw [byteLength_append]
      exact Nat.le_add_right _ _

end Stops

theorem eq_append_singleton_iff {template before after : String} {c : Char} :
    template = before ++ String.singleton c ++ after ↔
      template.toList = before.toList ++ c :: after.toList := by
  rw [← String.toList_inj]
  simp

theorem parse_eq_error_iff {template : String} {e : TemplateError} :
    parse template = .error e ↔ ∃ before c after, OffendsAt template before c after ∧
      (∃ parts, parse before = .ok parts) ∧ e = faultOf template c before.utf8ByteSize := by
  simp only [parse_eq_ok_iff_reads, ← byteLength_toList]
  constructor
  · intro h
    rcases readsOrStops template.toList with ⟨parts, hreads⟩ | ⟨before, c, after, hstops⟩
    · rw [parse_eq_ok_iff_reads.2 hreads] at h
      cases h
    · rw [parse, hstops.scan_eq] at h
      cases h
      obtain ⟨hsplit, hreads, hpaired, hoffends⟩ := hstops
      rw [← String.toList_ofList (l := before)] at hsplit hreads hpaired ⊢
      rw [← String.toList_ofList (l := after)] at hsplit hoffends
      exact ⟨_, c, _, ⟨eq_append_singleton_iff.2 hsplit, hpaired, hoffends⟩, hreads, rfl⟩
  · rintro ⟨before, c, after, ⟨hsplit, hpaired, hoffends⟩, hparts, rfl⟩
    exact Stops.scan_eq ⟨eq_append_singleton_iff.1 hsplit, hparts, hpaired, hoffends⟩ template

theorem OffendsAt.exists_error {template before after : String} {c : Char}
    (h : OffendsAt template before c after) :
    ∃ e, parse template = .error e ∧ e.position ≤ before.utf8ByteSize := by
  obtain ⟨first, d, following, hstops, hle⟩ := exists_stops h.paired h.offends
  rw [← eq_append_singleton_iff.1 h.split] at hstops
  refine ⟨_, hstops.scan_eq template, ?_⟩
  rwa [faultOf_position, ← byteLength_toList]

theorem faultOf_eq_unsupportedQuantifier {template template' : String} {c q : Char}
    {position p : Nat} : .unsupportedQuantifier template' q p = faultOf template c position ↔
      c ≠ ':' ∧ template' = template ∧ q = c ∧ p = position := by
  unfold faultOf
  split <;> simp_all

theorem faultOf_eq_emptyParamName {template template' : String} {c : Char} {position p : Nat} :
    .emptyParamName template' p = faultOf template c position ↔
      c = ':' ∧ template' = template ∧ p = position := by
  unfold faultOf
  split <;> simp_all

theorem parse_eq_unsupportedQuantifier_iff {template template' : String} {q : Char} {p : Nat} :
    parse template = .error (.unsupportedQuantifier template' q p) ↔
      template' = template ∧ (q = '+' ∨ q = '?') ∧
        ∃ before after, template = before ++ String.singleton q ++ after ∧
          (∃ parts, parse before = .ok parts) ∧ Paired before.toList ∧ p = before.utf8ByteSize := by
  simp only [parse_eq_error_iff, faultOf_eq_unsupportedQuantifier]
  constructor
  · rintro ⟨before, c, after, ⟨hsplit, hpaired, hoffends⟩, hparts, hcolon, rfl, rfl, rfl⟩
    refine ⟨rfl, ?_, before, after, hsplit, hparts, hpaired, rfl⟩
    exact hoffends.imp_right fun h => h.resolve_right fun h => hcolon h.1
  · rintro ⟨rfl, hq, before, after, hsplit, hparts, hpaired, rfl⟩
    refine ⟨before, q, after, ⟨hsplit, hpaired, hq.imp_right .inl⟩, hparts, ?_, rfl, rfl, rfl⟩
    rcases hq with rfl | rfl <;> decide

theorem parse_eq_emptyParamName_iff {template template' : String} {p : Nat} :
    parse template = .error (.emptyParamName template' p) ↔
      template' = template ∧
        ∃ before after, template = before ++ ":" ++ after ∧
          (∃ parts, parse before = .ok parts) ∧ Paired before.toList ∧
          (∀ c ∈ after.toList.head?, ¬NameChar c) ∧ p = before.utf8ByteSize := by
  simp only [parse_eq_error_iff, faultOf_eq_emptyParamName]
  constructor
  · rintro ⟨before, c, after, ⟨hsplit, hpaired, hoffends⟩, hparts, rfl, rfl, rfl⟩
    have hafter : ∀ c ∈ after.toList.head?, ¬NameChar c := by simpa [Offends] using hoffends
    exact ⟨rfl, before, after, hsplit, hparts, hpaired, hafter, rfl⟩
  · rintro ⟨rfl, before, after, hsplit, hparts, hpaired, hafter, rfl⟩
    exact ⟨before, ':', after, ⟨hsplit, hpaired, .inr (.inr ⟨rfl, hafter⟩)⟩, hparts, rfl, rfl, rfl⟩

theorem exists_parse_eq_ok_iff {template : String} :
    (∃ parts, parse template = .ok parts) ↔
      ∀ before c after, ¬OffendsAt template before c after := by
  constructor
  · rintro ⟨parts, hparts⟩ before c after h
    obtain ⟨e, he, _⟩ := h.exists_error
    simp [he] at hparts
  · intro h
    cases hparse : parse template with
    | ok parts => exact ⟨parts, rfl⟩
    | error e =>
      obtain ⟨before, c, after, hoffends, _⟩ := parse_eq_error_iff.1 hparse
      exact absurd hoffends (h before c after)

/-- A template is refused for its first offending character, at its position in bytes, and is parsed
if it has none. -/
theorem parse_refuses_first_offending (template : String) :
    (∀ template' q p, parse template = .error (.unsupportedQuantifier template' q p) ↔
      template' = template ∧ (q = '+' ∨ q = '?') ∧
        ∃ before after, template = before ++ String.singleton q ++ after ∧
          (∃ parts, parse before = .ok parts) ∧ Paired before.toList ∧ p = before.utf8ByteSize) ∧
      (∀ template' p, parse template = .error (.emptyParamName template' p) ↔
        template' = template ∧
          ∃ before after, template = before ++ ":" ++ after ∧
            (∃ parts, parse before = .ok parts) ∧ Paired before.toList ∧
            (∀ c ∈ after.toList.head?, ¬NameChar c) ∧ p = before.utf8ByteSize) ∧
      ((∃ parts, parse template = .ok parts) ↔
        ∀ before c after, ¬OffendsAt template before c after) ∧
      ∀ e, parse template = .error e → String.Pos.Raw.IsValid template ⟨e.position⟩ ∧
        (∃ before c after, OffendsAt template before c after ∧ e.position = before.utf8ByteSize) ∧
        ∀ before c after, OffendsAt template before c after → e.position ≤ before.utf8ByteSize := by
  refine ⟨fun _ _ _ => parse_eq_unsupportedQuantifier_iff, fun _ _ => parse_eq_emptyParamName_iff,
    exists_parse_eq_ok_iff, fun e he => ?_⟩
  obtain ⟨before, c, after, hoffends, _, heq⟩ := parse_eq_error_iff.1 he
  have hposition : e.position = before.utf8ByteSize := by rw [heq, faultOf_position]
  refine ⟨?_, ⟨before, c, after, hoffends, hposition⟩, fun before' c' after' hother => ?_⟩
  · rw [String.Pos.Raw.isValid_iff_exists_append]
    refine ⟨before, String.singleton c ++ after, ?_, ?_⟩
    · rw [hoffends.split, String.append_assoc]
    · rw [hposition]
      rfl
  · obtain ⟨e', he', hle⟩ := hother.exists_error
    obtain rfl : e = e' := Except.error.inj (he.symm.trans he')
    exact hle

theorem parse_refuses_first_offending_after_escape :
    let template := "é\\+/:id?:+"
    parse template = .error (.unsupportedQuantifier template '?' 8) ∧
      (∃ before after, template = before ++ String.singleton '?' ++ after ∧
        (∃ parts, parse before = .ok parts) ∧ Paired before.toList ∧ 8 = before.utf8ByteSize) ∧
      ∀ before c after, OffendsAt template before c after → 8 ≤ before.utf8ByteSize := by
  intro template
  have herror : parse template = .error (.unsupportedQuantifier template '?' 8) := by cbv
  obtain ⟨hquantifier, _, _, hfirst⟩ := parse_refuses_first_offending template
  exact ⟨herror, ((hquantifier template '?' 8).1 herror).2.2, (hfirst _ herror).2.2⟩

end Template

end ApiContract
