import ApiContract.Proofs.Schema.Acceptance

/-!
Strict and lenient validation compared. What is accepted strictly is accepted leniently. The modes
differ only at keys that are not declared, and there is one gap: a lenient intersection does not
look at the keys of an object itself, so a meta key that all of its members let pass is met by the
strict mode alone.
-/

namespace ApiContract

def Violation.OfStrictness (e : Violation) : Prop :=
  e.kind = .unexpectedField ∧ (∃ key, e.reason = .undeclaredKey key) ∨ e.kind = .unionExhausted

def Violation.OfMetaKey (e : Violation) : Prop :=
  e.kind = .unexpectedField ∧ ∃ key, e.reason = .metaKey key

namespace Schema

open Inspection

theorem Accepts.lenient {mode : Mode} {s : Schema} {v : Json} (h : Accepts mode s v) :
    Accepts .lenient s v := by
  induction h with
  | string => exact .string
  | number => exact .number
  | boolean => exact .boolean
  | null => exact .null
  | stringLiteral => exact .stringLiteral
  | numberLiteral h => exact .numberLiteral h
  | shape hmeta _ habsent _ ih => exact .shape hmeta ih habsent nofun
  | arrayOf _ ih => exact .arrayOf ih
  | mapOf _ ih => exact .mapOf ih
  | anyOf hs _ ih => exact .anyOf hs ih
  | allOf hne hscalar _ _ ih => exact .allOf hne hscalar ih nofun
  | unrefined _ ih => exact .unrefined ih
  | refined _ hp ih => exact .refined ih hp

/-- The walk in strict mode first fails at an intersection whose members all accept the object
leniently although it has a meta key, and the keys before that key are declared. -/
inductive MetaGap : Schema → Json → Prop
  | allOf {members before k v after} :
    Accepts .lenient (.allOf members) (.obj (before ++ (k, v) :: after)) →
    (∀ p ∈ before, p.1 ∈ declaredNamesList members) → Identifier.isMeta k = true →
    MetaGap (.allOf members) (.obj (before ++ (k, v) :: after))
  | shape {before f after entries v} :
    (∀ g ∈ before, g.isMeta = false → AcceptsField .strict entries g) →
    f.isMeta = false → entries.lookup f.name = some v → MetaGap f.schema v →
    MetaGap (.shape (before ++ f :: after)) (.obj entries)
  | arrayOf {items before v after} :
    (∀ u ∈ before, Accepts .strict items u) → MetaGap items v →
    MetaGap (.arrayOf items) (.arr (before ++ v :: after))
  | mapOf {values before k v after} :
    (∀ p ∈ before, Accepts .strict values p.2) → MetaGap values v →
    MetaGap (.mapOf values) (.obj (before ++ (k, v) :: after))
  | refined {base predicate v} : MetaGap base v → MetaGap (.refined base predicate) v

theorem MetaGap.outcome_eq_error {s : Schema} {v : Json} (h : MetaGap s v) :
    ∃ e, (s.inspect .strict (some v)).outcome = .error e ∧ e.OfMetaKey := by
  induction h with
  | @allOf members before k v after hlenient hbefore hk =>
    obtain ⟨hmembers, haccepts, _⟩ := accepts_allOf_iff.1 hlenient
    refine ⟨⟨.unexpectedField, [], .metaKey k⟩, ?_, rfl, k, rfl⟩
    rw [inspect_allOf hmembers, andThen_outcome_eq_error]
    refine .inr ⟨each_outcome_eq_ok.2 fun s hs => inspect_outcome_eq_ok.2 (haccepts s hs), ?_⟩
    refine each_outcome_eq_error.2 ⟨_, _, _, rfl, ?_, key_outcome_eq_error.2 (.inl ⟨hk, rfl⟩)⟩
    intro p hp
    have hdeclared := hbefore p hp
    refine key_outcome_eq_ok.2 ⟨not_isMeta_of_mem_declaredNamesList hdeclared, ?_⟩
    rintro names ⟨⟩
    exact hdeclared
  | @shape before f after entries v hbefore hm hv _ ih =>
    obtain ⟨e, he, hmeta⟩ := ih
    refine ⟨e.under (.field f.name), ?_, hmeta⟩
    rw [inspect_shape_obj, andThen_outcome_eq_error]
    refine .inl (each_outcome_eq_error.2 ⟨_, _, _, rfl, ?_, ?_⟩)
    · exact fun g hg => inspectField_outcome_eq_ok.2 (hbefore g hg)
    · exact Field.inspect_outcome_eq_error.2 ⟨hm, .inl ⟨_, e, hv, he, rfl⟩⟩
  | @arrayOf items before v after hbefore _ ih =>
    obtain ⟨e, he, hmeta⟩ := ih
    refine ⟨e.under (.index before.length), ?_, hmeta⟩
    refine inspect_arrayOf_outcome_eq_error.2 ⟨_, _, _, e, rfl, ?_, he, rfl⟩
    exact fun u hu => inspect_outcome_eq_ok.2 (hbefore u hu)
  | @mapOf values before k v after hbefore _ ih =>
    obtain ⟨e, he, hmeta⟩ := ih
    refine ⟨e.under (.field k), ?_, hmeta⟩
    rw [inspect_mapOf_obj, each_outcome_eq_error]
    refine ⟨_, _, _, rfl, ?_, under_outcome_eq_error.2 ⟨e, he, rfl⟩⟩
    exact fun p hp => under_outcome_eq_ok.2 (inspect_outcome_eq_ok.2 (hbefore p hp))
  | refined _ ih =>
    obtain ⟨e, he, hmeta⟩ := ih
    exact ⟨e, by rw [inspect, andThen_outcome_eq_error]; exact .inl he, hmeta⟩

theorem strict_outcome_eq_error {s : Schema} {v : Json} {e : Violation}
    (hlenient : Accepts .lenient s v) (he : (s.inspect .strict (some v)).outcome = .error e) :
    e.OfStrictness ∨ e.OfMetaKey ∧ MetaGap s v := by
  -- the two runs side by side: what fails in both modes contradicts the lenient acceptance
  induction s generalizing v e with
  | primitive p =>
    have hok := inspect_outcome_eq_ok.2 hlenient
    rw [inspect] at hok he
    rw [hok] at he
    cases he
  | literal l =>
    have hok := inspect_outcome_eq_ok.2 hlenient
    rw [inspect] at hok he
    rw [hok] at he
    cases he
  | shape fields ih =>
    cases hlenient with
    | shape hmeta hpresent habsent _ =>
      rw [inspect_shape_obj, andThen_outcome_eq_error] at he
      rcases he with he | ⟨_, he⟩
      · obtain ⟨before, f, after, rfl, hbefore, hf⟩ := each_outcome_eq_error.1 he
        have hmem : f ∈ before ++ f :: after := by simp
        obtain ⟨hm, ⟨v, e', hv, he', rfl⟩ | ⟨_, hnone, hrequired, _⟩⟩ :=
          Field.inspect_outcome_eq_error.1 hf
        · rcases ih f hmem (hpresent f hmem hm v hv) he' with h | ⟨h, hgap⟩
          · exact .inl h
          · exact .inr ⟨h, .shape (fun g hg => inspectField_outcome_eq_ok.1 (hbefore g hg)) hm hv
              hgap⟩
        · rw [habsent f hmem hm hnone] at hrequired
          contradiction
      · obtain ⟨before, p, after, rfl, _, hp⟩ := each_outcome_eq_error.1 he
        -- a shape forbids meta keys in lenient mode too
        rcases key_outcome_eq_error.1 hp with ⟨hk, _⟩ | ⟨_, _, rfl⟩
        · rw [hmeta p (by simp)] at hk
          contradiction
        · exact .inl (.inl ⟨rfl, p.1, rfl⟩)
  | arrayOf items ih =>
    cases hlenient with
    | arrayOf hvalues =>
      obtain ⟨before, v, after, e', rfl, hbefore, he', rfl⟩ :=
        inspect_arrayOf_outcome_eq_error.1 he
      rcases ih (hvalues v (by simp)) he' with h | ⟨h, hgap⟩
      · exact .inl h
      · exact .inr ⟨h, .arrayOf (fun u hu => inspect_outcome_eq_ok.1 (hbefore u hu)) hgap⟩
  | mapOf values ih =>
    cases hlenient with
    | mapOf hvalues =>
      rw [inspect_mapOf_obj] at he
      obtain ⟨before, p, after, rfl, hbefore, hp⟩ := each_outcome_eq_error.1 he
      obtain ⟨e', he', rfl⟩ := under_outcome_eq_error.1 hp
      rcases ih (hvalues p (by simp)) he' with h | ⟨h, hgap⟩
      · exact .inl h
      · refine .inr ⟨h, .mapOf (fun q hq => ?_) hgap⟩
        exact inspect_outcome_eq_ok.1 (under_outcome_eq_ok.1 (hbefore q hq))
  | anyOf variants _ =>
    rcases inspect_anyOf_outcome_eq_error he with ⟨rfl, _⟩ | ⟨_, rfl⟩
    · cases hlenient with
      | anyOf hs => simp at hs
    · exact .inl (.inr rfl)
  | allOf members _ =>
    obtain ⟨hmembers, haccepts, _⟩ := accepts_allOf_iff.1 hlenient
    rw [inspect_allOf hmembers, andThen_outcome_eq_error] at he
    -- the members are lenient in both runs, so only the keys can make the difference
    rcases he with he | ⟨_, he⟩
    · have hok := each_outcome_eq_ok.2 fun s hs => inspect_outcome_eq_ok.2 (haccepts s hs)
      simp [hok] at he
    · cases v with
      | obj entries =>
        obtain ⟨before, p, after, rfl, hbefore, hp⟩ := each_outcome_eq_error.1 he
        rcases key_outcome_eq_error.1 hp with ⟨hk, rfl⟩ | ⟨_, _, rfl⟩
        · refine .inr ⟨⟨rfl, _, rfl⟩, .allOf hlenient (fun q hq => ?_) hk⟩
          exact (key_outcome_eq_ok.1 (hbefore q hq)).2 _ rfl
        · exact .inl (.inl ⟨rfl, p.1, rfl⟩)
      | _ => simp [inspectKeys] at he
  | refined base predicate ih =>
    obtain ⟨hbase, hp⟩ := accepts_refined_iff.1 hlenient
    rw [inspect, andThen_outcome_eq_error] at he
    rcases he with he | ⟨_, he⟩
    · rcases ih hbase he with h | ⟨h, hgap⟩
      · exact .inl h
      · exact .inr ⟨h, .refined hgap⟩
    · simp [predicate_outcome_eq_ok.2 hp] at he

theorem metaKey_text_ne (key other : String) :
    (Reason.metaKey key).text ≠ "Unexpected object property: " ++ Json.stringText other := by
  intro h
  have hchars := congrArg String.toList h
  change ("Fields starting with $ are forbidden: " ++ Json.stringText key).toList = _ at hchars
  simp [String.toList_append] at hchars

/-- Strict validation refines lenient validation. A value that only the strict mode refuses has an
undeclared key or satisfies no variant of a union strictly, except in the gap. -/
theorem strict_refines_lenient (s : Schema) (v : Json) :
    (s.validate .strict v = .ok () → s.validate .lenient v = .ok ()) ∧
      ∀ e, s.validate .lenient v = .ok () → s.validate .strict v = .error e →
        ((e.kind = .unexpectedField ∧
              (∃ key, e.reason.text = "Unexpected object property: " ++ Json.stringText key) ∨
            e.kind = .unionExhausted) ↔
          ¬MetaGap s v) := by
  constructor
  · intro hstrict
    exact validate_eq_ok.2 (validate_eq_ok.1 hstrict).lenient
  · intro e hlenient hstrict
    rw [validate_eq] at hstrict
    constructor
    · intro h hgap
      obtain ⟨e', he', hkind, key, hreason⟩ := hgap.outcome_eq_error
      obtain rfl : e' = e := Except.error.inj (he'.symm.trans hstrict)
      rcases h with ⟨_, other, htext⟩ | h
      · exact metaKey_text_ne key other (hreason ▸ htext)
      · simp [hkind] at h
    · intro hgap
      rcases strict_outcome_eq_error (validate_eq_ok.1 hlenient) hstrict with h | ⟨_, h⟩
      · rcases h with ⟨hkind, key, hreason⟩ | h
        · exact .inl ⟨hkind, key, by rw [hreason]; rfl⟩
        · exact .inr h
      · exact absurd h hgap

theorem strict_refines_lenient_undeclared :
    (Schema.shape []).validate .lenient (.obj [("a", .null)]) = .ok () ∧
      (Schema.shape []).validate .strict (.obj [("a", .null)]) =
        .error ⟨.unexpectedField, [], .undeclaredKey "a"⟩ ∧
      ¬MetaGap (.shape []) (.obj [("a", .null)]) :=
  ⟨rfl, rfl, ((strict_refines_lenient (.shape []) (.obj [("a", .null)])).2 _ rfl rfl).1
    (.inl ⟨rfl, "a", rfl⟩)⟩

theorem strict_refusal_of_meta_key :
    (Schema.allOf [.mapOf .string]).validate .lenient (.obj [("$a", .str "x")]) = .ok () ∧
      ∃ e, (Schema.allOf [.mapOf .string]).validate .strict (.obj [("$a", .str "x")]) = .error e ∧
        e.reason.text = "Fields starting with $ are forbidden: \"$a\"" ∧
        ¬(e.kind = .unexpectedField ∧
            (∃ key, e.reason.text = "Unexpected object property: " ++ Json.stringText key) ∨
          e.kind = .unionExhausted) := by
  refine ⟨rfl, ⟨.unexpectedField, [], .metaKey "$a"⟩, rfl, rfl, ?_⟩
  rintro (⟨_, key, h⟩ | h)
  · exact metaKey_text_ne "$a" key h
  · cases h

end Schema

end ApiContract
