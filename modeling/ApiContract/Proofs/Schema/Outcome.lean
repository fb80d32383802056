import ApiContract.Proofs.Schema.Rerooting
import Mathlib

/-!
What an inspection ends with. All inspections of several parts are one walk that stops at the first
part that fails, so what is known of a failure is said once, for that walk.
-/

namespace ApiContract

namespace Inspection

theorem andThen_outcome_eq_error {first : Inspection} {second : Unit → Inspection}
    {e : Violation} :
    (first.andThen second).outcome = .error e ↔
      first.outcome = .error e ∨ first.outcome = .ok () ∧ (second ()).outcome = .error e := by
  cases h : first.outcome <;> simp [andThen, h]

theorem mapError_outcome_eq_error {f : Violation → Violation} {i : Inspection} {e : Violation} :
    (i.mapError f).outcome = .error e ↔ ∃ e', i.outcome = .error e' ∧ f e' = e := by
  obtain ⟨calls, outcome⟩ := i
  cases outcome <;> simp [mapError, Except.mapError]

theorem under_outcome_eq_error {segment : Segment} {i : Inspection} {e : Violation} :
    (i.under segment).outcome = .error e ↔ ∃ e', i.outcome = .error e' ∧ e'.under segment = e :=
  mapError_outcome_eq_error

@[simp] theorem pass_outcome : pass.outcome = .ok () := rfl

@[simp] theorem fail_outcome (kind : ViolationKind) (reason : Reason) :
    (fail kind reason).outcome = .error ⟨kind, [], reason⟩ := rfl

section Each

variable {α : Type} (check : α → Inspection)

/-- Checks parts in order up to the first failure. Items, entries, fields, members and keys are
instances. -/
def each : List α → Inspection
  | [] => pass
  | a :: rest => (check a).andThen fun _ => each rest

variable {check}

theorem each_outcome_eq_ok {parts : List α} :
    (each check parts).outcome = .ok () ↔ ∀ a ∈ parts, (check a).outcome = .ok () := by
  induction parts with
  | nil => simp [each]
  | cons a rest ih => simp [each, ih]

theorem each_outcome_eq_error {parts : List α} {e : Violation} :
    (each check parts).outcome = .error e ↔
      ∃ before a after, parts = before ++ a :: after ∧
        (∀ b ∈ before, (check b).outcome = .ok ()) ∧ (check a).outcome = .error e := by
  induction parts with
  | nil => simp [each]
  | cons a rest ih =>
    rw [each, andThen_outcome_eq_error, ih]
    constructor
    · rintro (h | ⟨ha, before, b, after, rfl, hbefore, hb⟩)
      · exact ⟨[], a, rest, rfl, List.forall_mem_nil _, h⟩
      · exact ⟨a :: before, b, after, rfl, List.forall_mem_cons.2 ⟨ha, hbefore⟩, hb⟩
    · rintro ⟨before, b, after, hparts, hbefore, hb⟩
      cases before with
      | nil =>
        obtain ⟨rfl, rfl⟩ := List.cons.inj hparts
        exact .inl hb
      | cons c before =>
        obtain ⟨rfl, rfl⟩ := List.cons.inj hparts
        obtain ⟨hc, hbefore⟩ := List.forall_mem_cons.1 hbefore
        exact .inr ⟨hc, before, b, after, rfl, hbefore, hb⟩

theorem each_congr {check' : α → Inspection} {parts : List α}
    (h : ∀ a ∈ parts, check a = check' a) : each check parts = each check' parts := by
  induction parts with
  | nil => rfl
  | cons a rest ih =>
    obtain ⟨ha, hrest⟩ := List.forall_mem_cons.1 h
    rw [each, each, ha, ih hrest]

theorem each_map {β : Type} (f : β → α) (parts : List β) :
    each check (parts.map f) = each (fun b => check (f b)) parts := by
  induction parts with
  | nil => rfl
  | cons b rest ih => rw [List.map_cons, each, each, ih]

theorem each_filter {keep : α → Bool} {parts : List α}
    (h : ∀ a ∈ parts, keep a = false → check a = pass) :
    each check (parts.filter keep) = each check parts := by
  induction parts with
  | nil => rfl
  | cons a rest ih =>
    obtain ⟨ha, hrest⟩ := List.forall_mem_cons.1 h
    cases hkeep : keep a with
    | true => rw [List.filter_cons_of_pos hkeep, each, each, ih hrest]
    | false =>
      rw [List.filter_cons_of_neg (by simp [hkeep]), each, ha hkeep, ih hrest]
      rfl

end Each

theorem items_eq_each (inspect : Json → Inspection) (position : Nat) (values : List Json) :
    items inspect position values =
      each (fun p => (inspect p.1).under (.index p.2)) (values.zipIdx position) := by
  induction values generalizing position with
  | nil => rfl
  | cons v rest ih => simp only [items, List.zipIdx_cons, each, ih]

theorem items_outcome_eq_ok {inspect : Json → Inspection} {position : Nat}
    {values : List Json} :
    (items inspect position values).outcome = .ok () ↔
      ∀ v ∈ values, (inspect v).outcome = .ok () := by
  induction values generalizing position with
  | nil => simp [items]
  | cons v rest ih => simp [items, ih]

theorem items_outcome_eq_error {inspect : Json → Inspection} {position : Nat}
    {values : List Json} {e : Violation} :
    (items inspect position values).outcome = .error e ↔
      ∃ before v after e', values = before ++ v :: after ∧
        (∀ u ∈ before, (inspect u).outcome = .ok ()) ∧
        (inspect v).outcome = .error e' ∧ e'.under (.index (position + before.length)) = e := by
  rw [items_eq_each, each_outcome_eq_error]
  constructor
  · rintro ⟨_, _, _, hparts, hbefore, hv⟩
    obtain ⟨before, _, rfl, rfl, hrest⟩ := List.zipIdx_eq_append_iff.1 hparts
    obtain ⟨v, after, rfl, rfl, rfl⟩ := List.zipIdx_eq_cons_iff.1 hrest.symm
    obtain ⟨e', he, rfl⟩ := under_outcome_eq_error.1 hv
    refine ⟨before, v, after, e', rfl, ?_, he, rfl⟩
    intro u hu
    obtain ⟨i, hi⟩ := List.mem_iff_getElem?.1 hu
    have hmem : (u, position + i) ∈ before.zipIdx position :=
      List.mk_add_mem_zipIdx_iff_getElem?.2 hi
    exact under_outcome_eq_ok.1 (hbefore _ hmem)
  · rintro ⟨before, v, after, e', rfl, hbefore, he, rfl⟩
    refine ⟨before.zipIdx position, (v, position + before.length),
      after.zipIdx (position + before.length + 1), ?_, ?_, ?_⟩
    · rw [List.zipIdx_append, List.zipIdx_cons]
    · intro p hp
      exact under_outcome_eq_ok.2 (hbefore p.1 (List.fst_mem_of_mem_zipIdx hp))
    · exact under_outcome_eq_error.2 ⟨e', he, rfl⟩

theorem members_eq_each (inspect : Json → Inspection) (entries : List (String × Json)) :
    members inspect entries = each (fun p => (inspect p.2).under (.field p.1)) entries := by
  induction entries with
  | nil => rfl
  | cons p rest ih => simp only [members, each, ih]

def key (allowed : Option (List String)) (k : String) : Inspection :=
  if Identifier.isMeta k then fail .unexpectedField (.metaKey k)
  else if allowed.all (·.contains k) then pass
  else fail .unexpectedField (.undeclaredKey k)

theorem keys_eq_each (allowed : Option (List String)) (entries : List (String × Json)) :
    keys allowed entries = each (fun p => key allowed p.1) entries := by
  induction entries with
  | nil => rfl
  | cons p rest ih =>
    simp only [keys, each, key, ih]
    split
    · rfl
    · split <;> rfl

theorem key_outcome_eq_ok {allowed : Option (List String)} {k : String} :
    (key allowed k).outcome = .ok () ↔
      Identifier.isMeta k = false ∧ ∀ names, allowed = some names → k ∈ names := by
  cases hk : Identifier.isMeta k with
  | true => simp [key, hk]
  | false =>
    cases allowed with
    | none => simp [key, hk]
    | some names => by_cases hn : k ∈ names <;> simp [key, hk, hn]

theorem key_outcome_eq_error {allowed : Option (List String)} {k : String} {e : Violation} :
    (key allowed k).outcome = .error e ↔
      Identifier.isMeta k = true ∧ e = ⟨.unexpectedField, [], .metaKey k⟩ ∨
      Identifier.isMeta k = false ∧ (∃ names, allowed = some names ∧ k ∉ names) ∧
        e = ⟨.unexpectedField, [], .undeclaredKey k⟩ := by
  cases hk : Identifier.isMeta k with
  | true => simp [key, hk, eq_comm]
  | false =>
    cases allowed with
    | none => simp [key, hk]
    | some names => by_cases hn : k ∈ names <;> simp [key, hk, hn, eq_comm]

end Inspection

def Mode.allowed : Mode → List String → Option (List String)
  | .strict, names => some names
  | .lenient, _ => none

def Field.inspect (f : Field) (mode : Mode) (entries : List (String × Json)) : Inspection :=
  if f.isMeta then .pass
  else
    match entries.lookup f.name with
    | some value => (f.schema.inspect mode (some value)).under (.field f.name)
    | none =>
      if f.optional then .pass
      else ((f.schema.inspect mode none).under (.field f.name)).mapError .asMissing

namespace Schema

open Inspection

theorem inspectFields_eq_each (fields : List Field) (mode : Mode)
    (entries : List (String × Json)) :
    inspectFields fields mode entries = each (fun f => f.inspect mode entries) fields := by
  induction fields with
  | nil => rfl
  | cons f rest ih =>
    obtain ⟨name, optional, schema⟩ := f
    simp only [inspectFields, each, ih, Field.isMeta, Field.inspect]
    split <;> rfl

theorem inspectMembers_eq_each (members : List Schema) (found : Option Json) :
    inspectMembers members found = each (fun s => s.inspect .lenient found) members := by
  induction members with
  | nil => rfl
  | cons s rest ih => simp only [inspectMembers, each, ih]

theorem inspectVariants_outcome_eq_ok {variants : List Schema} {mode : Mode}
    {found : Option Json} :
    (inspectVariants variants mode found).outcome = .ok () ↔
      ∃ s ∈ variants, (s.inspect mode found).outcome = .ok () := by
  induction variants with
  | nil => simp [inspectVariants]
  | cons s rest ih => simp [inspectVariants, ih]

theorem inspectVariants_outcome_eq_error {variants : List Schema} {mode : Mode}
    {found : Option Json} {e : Violation}
    (h : (inspectVariants variants mode found).outcome = .error e) :
    e = ⟨.unionExhausted, [], .noVariant found⟩ := by
  induction variants with
  | nil => simpa [inspectVariants, eq_comm] using h
  | cons s rest ih =>
    rw [inspectVariants, orElse] at h
    split at h
    · simp_all
    · exact ih h

theorem inspect_shape_obj (fields : List Field) (mode : Mode) (entries : List (String × Json)) :
    (Schema.shape fields).inspect mode (some (.obj entries)) =
      (each (fun f => f.inspect mode entries) fields).andThen fun _ =>
        each (fun p => key (mode.allowed (Field.names (Field.declared fields))) p.1) entries := by
  cases mode <;> simp only [inspect, inspectFields_eq_each, keys_eq_each, Mode.allowed]

theorem inspect_arrayOf_outcome_eq_ok {items : Schema} {mode : Mode} {values : List Json} :
    ((Schema.arrayOf items).inspect mode (some (.arr values))).outcome = .ok () ↔
      ∀ v ∈ values, (items.inspect mode (some v)).outcome = .ok () := by
  simp only [inspect, items_outcome_eq_ok]

theorem inspect_arrayOf_outcome_eq_error {items : Schema} {mode : Mode} {values : List Json}
    {e : Violation} :
    ((Schema.arrayOf items).inspect mode (some (.arr values))).outcome = .error e ↔
      ∃ before v after e', values = before ++ v :: after ∧
        (∀ u ∈ before, (items.inspect mode (some u)).outcome = .ok ()) ∧
        (items.inspect mode (some v)).outcome = .error e' ∧
        e'.under (.index before.length) = e := by
  simp only [inspect, items_outcome_eq_error, Nat.zero_add]

theorem inspect_mapOf_obj (values : Schema) (mode : Mode) (entries : List (String × Json)) :
    (Schema.mapOf values).inspect mode (some (.obj entries)) =
      each (fun p => (values.inspect mode (some p.2)).under (.field p.1)) entries := by
  simp only [inspect, members_eq_each]

theorem inspect_anyOf {variants : List Schema} (h : variants ≠ []) (mode : Mode)
    (found : Option Json) :
    (Schema.anyOf variants).inspect mode found = inspectVariants variants mode found := by
  rw [inspect, if_neg (by simpa using h)]

theorem inspect_anyOf_outcome_eq_ok {variants : List Schema} {mode : Mode} {found : Option Json} :
    ((Schema.anyOf variants).inspect mode found).outcome = .ok () ↔
      ∃ s ∈ variants, (s.inspect mode found).outcome = .ok () := by
  cases variants with
  | nil => simp [inspect]
  | cons s rest => rw [inspect_anyOf (List.cons_ne_nil s rest), inspectVariants_outcome_eq_ok]

theorem inspect_anyOf_outcome_eq_error {variants : List Schema} {mode : Mode}
    {found : Option Json} {e : Violation}
    (h : ((Schema.anyOf variants).inspect mode found).outcome = .error e) :
    variants = [] ∧ e = ⟨.schemaAuthoring, [], .emptyUnion⟩ ∨
      variants ≠ [] ∧ e = ⟨.unionExhausted, [], .noVariant found⟩ := by
  cases variants with
  | nil => exact .inl ⟨rfl, by simpa [inspect, eq_comm] using h⟩
  | cons s rest =>
    rw [inspect_anyOf (List.cons_ne_nil s rest)] at h
    exact .inr ⟨by simp, inspectVariants_outcome_eq_error h⟩

def Intersects (members : List Schema) : Prop :=
  members ≠ [] ∧ ∀ m ∈ members, m.isScalar = false

def inspectKeys (members : List Schema) : Mode → Option Json → Inspection
  | .strict, some (.obj entries) =>
    each (fun p => key (some (declaredNamesList members)) p.1) entries
  | _, _ => pass

theorem inspect_allOf {members : List Schema} (h : Intersects members) (mode : Mode)
    (found : Option Json) :
    (Schema.allOf members).inspect mode found =
      (each (fun s => s.inspect .lenient found) members).andThen fun _ =>
        inspectKeys members mode found := by
  have hfind : members.find? isScalar = none := by
    simpa [List.find?_eq_none] using h.2
  rw [← inspectMembers_eq_each]
  unfold inspect
  rw [if_neg (by simpa using h.1), hfind]
  cases mode with
  | lenient => rfl
  | strict =>
    rcases found with _ | v
    · rfl
    · cases v with
      | obj entries =>
        exact congrArg (andThen (inspectMembers members (some (.obj entries))))
          (funext fun _ => keys_eq_each _ entries)
      | _ => rfl

theorem inspect_allOf_of_not_intersects {members : List Schema} (h : ¬Intersects members)
    (mode : Mode) (found : Option Json) :
    ∃ reason, (Schema.allOf members).inspect mode found = fail .schemaAuthoring reason := by
  unfold inspect
  split
  · exact ⟨_, rfl⟩
  · rename_i hne
    split
    · exact ⟨_, rfl⟩
    · rename_i hfind
      exact absurd ⟨by simpa using hne, by simpa [List.find?_eq_none] using hfind⟩ h

end Schema

def Violation.OfAbsence (e : Violation) (location : Location) : Prop :=
  e.location = location ∧
    (e.kind ∈ [.shapeMismatch, .structureMismatch, .unionExhausted] ∧
        (∃ text, e.reason.text = text ++ "undefined") ∨
      e.kind = .schemaAuthoring)

theorem Violation.OfAbsence.asMissing_eq {e : Violation} (h : e.OfAbsence []) (segment : Segment) :
    e.kind ≠ .schemaAuthoring ∧ (∃ text, e.reason.text = text ++ "undefined") ∧
        (e.under segment).asMissing = ⟨.missingField, [segment], e.reason⟩ ∨
      e.kind = .schemaAuthoring ∧
        (e.under segment).asMissing = ⟨.schemaAuthoring, [segment], e.reason⟩ := by
  obtain ⟨kind, location, reason⟩ := e
  obtain ⟨rfl, ⟨hkind, hends⟩ | rfl⟩ := h
  · simp only [List.mem_cons, List.not_mem_nil, or_false] at hkind
    rcases hkind with rfl | rfl | rfl <;> exact .inl ⟨by simp, hends, rfl⟩
  · exact .inr ⟨rfl, rfl⟩

namespace Schema

open Inspection

theorem inspectVariants_none {variants : List Schema} {mode : Mode}
    (h : ∀ s ∈ variants, ∃ e, s.inspect mode none = ⟨[], .error e⟩) :
    inspectVariants variants mode none = fail .unionExhausted (.noVariant none) := by
  induction variants with
  | nil => rfl
  | cons s rest ih =>
    obtain ⟨⟨e, he⟩, hrest⟩ := List.forall_mem_cons.1 h
    rw [inspectVariants, he, ih hrest]
    rfl

theorem inspect_none (s : Schema) (mode : Mode) :
    ∃ e : Violation, s.inspect mode none = ⟨[], .error e⟩ ∧ e.OfAbsence [] := by
  induction s generalizing mode with
  | primitive p =>
    refine ⟨_, rfl, rfl, .inl ⟨by simp, ?_⟩⟩
    cases p <;> exact ⟨_, rfl⟩
  | literal l => exact ⟨_, rfl, rfl, .inl ⟨by simp, _, rfl⟩⟩
  | shape fields => exact ⟨_, rfl, rfl, .inl ⟨by simp, _, rfl⟩⟩
  | arrayOf items => exact ⟨_, rfl, rfl, .inl ⟨by simp, _, rfl⟩⟩
  | mapOf values => exact ⟨_, rfl, rfl, .inl ⟨by simp, _, rfl⟩⟩
  | anyOf variants ih =>
    rw [inspect]
    split
    · exact ⟨_, rfl, rfl, .inr rfl⟩
    · rw [inspectVariants_none fun s hs => (ih s hs mode).imp fun _ h => h.1]
      exact ⟨_, rfl, rfl, .inl ⟨by simp, _, rfl⟩⟩
  | allOf members ih =>
    by_cases h : Intersects members
    · rw [inspect_allOf h]
      cases members with
      | nil => exact absurd rfl h.1
      | cons m rest =>
        obtain ⟨e, he, habsent⟩ := ih m (by simp) .lenient
        exact ⟨e, by rw [each, he]; rfl, habsent⟩
    · obtain ⟨reason, hfail⟩ := inspect_allOf_of_not_intersects h mode none
      exact ⟨_, hfail, rfl, .inr rfl⟩
  | refined base predicate ih =>
    obtain ⟨e, he, habsent⟩ := ih mode
    exact ⟨e, by rw [inspect, he]; rfl, habsent⟩

theorem inspect_none_outcome_ne_ok (s : Schema) (mode : Mode) :
    (s.inspect mode none).outcome ≠ .ok () := by
  obtain ⟨e, he, _⟩ := s.inspect_none mode
  simp [he]

theorem ofAbsence_of_inspect_none {s : Schema} {mode : Mode} {e : Violation}
    (h : (s.inspect mode none).outcome = .error e) : e.OfAbsence [] := by
  obtain ⟨_, hnone, hof⟩ := s.inspect_none mode
  rw [hnone] at h
  cases h
  exact hof

end Schema

theorem Field.inspect_outcome_eq_ok {f : Field} {mode : Mode} {entries : List (String × Json)} :
    (f.inspect mode entries).outcome = .ok () ↔ (f.isMeta = false →
      (∀ v, entries.lookup f.name = some v → (f.schema.inspect mode (some v)).outcome = .ok ()) ∧
        (entries.lookup f.name = none → f.optional = true)) := by
  rw [Field.inspect]
  cases f.isMeta with
  | true => simp
  | false =>
    cases entries.lookup f.name with
    | some v => simp
    | none =>
      have hnone := f.schema.inspect_none_outcome_ne_ok mode
      cases f.optional <;> simp [hnone]

theorem Field.inspect_outcome_eq_error {f : Field} {mode : Mode} {entries : List (String × Json)}
    {e : Violation} :
    (f.inspect mode entries).outcome = .error e ↔ f.isMeta = false ∧
      ((∃ v e', entries.lookup f.name = some v ∧
        (f.schema.inspect mode (some v)).outcome = .error e' ∧ e'.under (.field f.name) = e) ∨
      (∃ e', entries.lookup f.name = none ∧ f.optional = false ∧
        (f.schema.inspect mode none).outcome = .error e' ∧
        (e'.under (.field f.name)).asMissing = e)) := by
  rw [Field.inspect]
  cases f.isMeta with
  | true => simp
  | false =>
    cases entries.lookup f.name with
    | some v => simp [Inspection.under_outcome_eq_error]
    | none =>
      cases f.optional with
      | true => simp
      | false =>
        simp only [Bool.false_eq_true, if_false, Inspection.mapError_outcome_eq_error,
          Inspection.under_outcome_eq_error, true_and]
        constructor
        · rintro ⟨_, ⟨e', he, rfl⟩, rfl⟩
          exact .inr ⟨e', he, rfl⟩
        · rintro (⟨_, _, h, _⟩ | ⟨e', he, rfl⟩)
          · exact absurd h (by simp)
          · exact ⟨_, ⟨e', he, rfl⟩, rfl⟩

end ApiContract
