import ApiContract.Proofs.Json.Order
import ApiContract.Proofs.Schema.Outcome

namespace ApiContract

structure Schema.FirstItem (s : Schema) (mode : Mode) (values : List Json) (i : Nat)
    (e : Violation) : Prop where
  refused : ∃ v, values[i]? = some v ∧ s.validate mode v = .error e
  before : ∀ j < i, ∀ v, values[j]? = some v → s.validate mode v = .ok ()

structure Schema.LeastEntry (s : Schema) (mode : Mode) (entries : List (String × Json))
    (key : String) (e : Violation) : Prop where
  refused : ∃ v, (key, v) ∈ entries ∧ s.validate mode v = .error e
  before : ∀ k v, (k, v) ∈ entries → k < key → s.validate mode v = .ok ()

namespace Field

variable (f : Field) (mode : Mode) (entries : List (String × Json))

def Passes : Prop :=
  (∀ v, entries.lookup f.name = some v → f.schema.validate mode v = .ok ()) ∧
    (entries.lookup f.name = none → f.optional = true)

/-- The violation of a declared field: that of its value, under its name. An absent required field
is missing unless its schema is malformed. -/
inductive Fails : Violation → Prop
  | present {v e} : entries.lookup f.name = some v → f.schema.validate mode v = .error e →
    Fails ⟨e.kind, .field f.name :: e.location, e.reason⟩
  | absent {e} : entries.lookup f.name = none → f.optional = false →
    (f.schema.check mode .root none).outcome = .error e →
    Fails ⟨if e.kind = .schemaAuthoring then .schemaAuthoring else .missingField,
      .field f.name :: e.location, e.reason⟩

end Field

namespace Schema

variable (fields : List Field) (mode : Mode) (entries : List (String × Json))

def FirstField (e : Violation) : Prop :=
  ∃ before f after, Field.declared fields = before ++ f :: after ∧
    (∀ g ∈ before, g.Passes mode entries) ∧ f.Fails mode entries e

def Unexpected (key : String) : Prop :=
  Identifier.isMeta key = true ∨ mode = .strict ∧ key ∉ Field.names (Field.declared fields)

structure LeastUnexpected (key : String) : Prop where
  mem : ∃ v, (key, v) ∈ entries
  unexpected : Unexpected fields mode key
  least : ∀ k v, (k, v) ∈ entries → Unexpected fields mode k → key ≤ k

end Schema

def Violation.unexpected (key : String) : Violation :=
  ⟨.unexpectedField, [], if Identifier.isMeta key then .metaKey key else .undeclaredKey key⟩

namespace Inspection

variable {check : String × Json → Inspection} {entries : List (String × Json)}

theorem each_entry_outcome_eq_error (h : Json.Ascending entries) {e : Violation} :
    (each check entries).outcome = .error e ↔
      ∃ p ∈ entries, (∀ q ∈ entries, q.1 < p.1 → (check q).outcome = .ok ()) ∧
        (check p).outcome = .error e := by
  rw [each_outcome_eq_error]
  exact h.exists_split_iff

end Inspection

open Inspection

theorem Violation.OfAbsence.asMissing_under {e : Violation} (h : e.OfAbsence [])
    (segment : Segment) :
    (e.under segment).asMissing =
      ⟨if e.kind = .schemaAuthoring then .schemaAuthoring else .missingField,
        segment :: e.location, e.reason⟩ := by
  rw [h.1]
  rcases h.asMissing_eq segment with ⟨hkind, _, heq⟩ | ⟨hkind, heq⟩
  · rw [heq, if_neg hkind]
  · rw [heq, if_pos hkind]

namespace Field

variable {f : Field} {mode : Mode} {entries : List (String × Json)}

theorem passes_iff (h : f.isMeta = false) :
    f.Passes mode entries ↔ (f.inspect mode entries).outcome = .ok () := by
  simp only [Passes, inspect_outcome_eq_ok, h, Schema.validate_eq, forall_const]

theorem fails_iff (h : f.isMeta = false) {e : Violation} :
    f.Fails mode entries e ↔ (f.inspect mode entries).outcome = .error e := by
  simp only [inspect_outcome_eq_error, ← Schema.validate_eq, and_iff_right h]
  constructor
  · intro hfails
    cases hfails with
    | present hv hrefused => exact .inl ⟨_, _, hv, hrefused, rfl⟩
    | absent hnone hrequired hrefused =>
      rw [Schema.check_root] at hrefused
      have habsence := Schema.ofAbsence_of_inspect_none hrefused
      exact .inr ⟨_, hnone, hrequired, hrefused, habsence.asMissing_under _⟩
  · rintro (⟨v, e', hv, hrefused, rfl⟩ | ⟨e', hnone, hrequired, hrefused, rfl⟩)
    · exact .present hv hrefused
    · rw [(Schema.ofAbsence_of_inspect_none hrefused).asMissing_under]
      rw [← Schema.check_root] at hrefused
      exact .absent hnone hrequired hrefused

end Field

namespace Schema

variable {fields : List Field} {mode : Mode} {entries : List (String × Json)}

theorem each_declared : each (fun f => f.inspect mode entries) (Field.declared fields) =
    each (fun f => f.inspect mode entries) fields := by
  apply each_filter
  intro f _ hmeta
  rw [Field.inspect, if_pos (by simpa using hmeta)]

theorem forall_passes_iff :
    (∀ f ∈ Field.declared fields, f.Passes mode entries) ↔
      (each (fun f => f.inspect mode entries) fields).outcome = .ok () := by
  rw [← each_declared, each_outcome_eq_ok]
  apply forall₂_congr
  intro f hf
  exact Field.passes_iff (mem_declared.1 hf).2

theorem firstField_iff {e : Violation} :
    FirstField fields mode entries e ↔
      (each (fun f => f.inspect mode entries) fields).outcome = .error e := by
  rw [← each_declared, each_outcome_eq_error]
  apply exists₃_congr
  intro before f after
  apply and_congr_right
  intro hsplit
  have hmeta : ∀ g ∈ before ++ f :: after, g.isMeta = false := by
    intro g hg
    exact (mem_declared.1 (hsplit ▸ hg)).2
  apply and_congr
  · apply forall₂_congr
    intro g hg
    exact Field.passes_iff (hmeta g (List.mem_append_left _ hg))
  · exact Field.fails_iff (hmeta f (by simp))

theorem unexpected_iff {key : String} :
    Unexpected fields mode key ↔
      (Inspection.key (mode.allowed (Field.names (Field.declared fields))) key).outcome ≠
        .ok () := by
  rw [Unexpected, ne_eq, key_outcome_eq_ok]
  cases hmeta : Identifier.isMeta key <;> cases mode <;> simp [Mode.allowed]

theorem key_outcome_eq_error_iff {key : String} {e : Violation} :
    (Inspection.key (mode.allowed (Field.names (Field.declared fields))) key).outcome = .error e ↔
      Unexpected fields mode key ∧ e = .unexpected key := by
  rw [key_outcome_eq_error, Unexpected, Violation.unexpected]
  cases hmeta : Identifier.isMeta key <;> cases mode <;> simp [Mode.allowed]

theorem exists_leastUnexpected_iff (h : Json.Ascending entries) {e : Violation} :
    (∃ key, LeastUnexpected fields mode entries key ∧ e = .unexpected key) ↔
      (each (fun p => Inspection.key (mode.allowed (Field.names (Field.declared fields))) p.1)
        entries).outcome =
        .error e := by
  rw [each_entry_outcome_eq_error h]
  simp only [key_outcome_eq_error_iff]
  constructor
  · rintro ⟨key, ⟨⟨v, hmem⟩, hunexpected, hleast⟩, rfl⟩
    refine ⟨(key, v), hmem, fun q hq hlt => ?_, hunexpected, rfl⟩
    by_contra hnot
    exact absurd hlt (not_lt.2 (hleast q.1 q.2 hq (unexpected_iff.2 hnot)))
  · rintro ⟨p, hmem, hbefore, hunexpected, rfl⟩
    refine ⟨p.1, ⟨⟨p.2, hmem⟩, hunexpected, fun k v hk hother => ?_⟩, rfl⟩
    by_contra hnot
    exact unexpected_iff.1 hother (hbefore (k, v) hk (not_le.1 hnot))

section Validate

variable {e : Violation}

theorem validate_arrayOf_eq_error {items : Schema} {values : List Json} :
    (Schema.arrayOf items).validate mode (.arr values) = .error e ↔
      ∃ i e', items.FirstItem mode values i e' ∧
        e = ⟨e'.kind, .index i :: e'.location, e'.reason⟩ := by
  rw [validate_eq, inspect_arrayOf_outcome_eq_error]
  simp only [← validate_eq]
  constructor
  · rintro ⟨before, v, after, e', rfl, hbefore, hv, rfl⟩
    refine ⟨before.length, e', ⟨⟨v, by simp, hv⟩, fun j hj u hu => ?_⟩, rfl⟩
    rw [List.getElem?_append_left hj] at hu
    exact hbefore u (List.mem_of_getElem? hu)
  · rintro ⟨i, e', ⟨⟨v, hv, hrefused⟩, hbefore⟩, rfl⟩
    obtain ⟨hi, rfl⟩ := List.getElem?_eq_some_iff.1 hv
    refine ⟨values.take i, values[i], values.drop (i + 1), e', ?_, fun u hu => ?_, hrefused, ?_⟩
    · rw [List.getElem_cons_drop, List.take_append_drop]
    · obtain ⟨j, hj, rfl⟩ := List.mem_take_iff_getElem.1 hu
      exact hbefore j (by omega) _ (List.getElem?_eq_getElem _)
    · rw [List.length_take_of_le hi.le]
      rfl

theorem validate_mapOf_eq_error {values : Schema} (h : Json.Ascending entries) :
    (Schema.mapOf values).validate mode (.obj entries) = .error e ↔
      ∃ k e', values.LeastEntry mode entries k e' ∧
        e = ⟨e'.kind, .field k :: e'.location, e'.reason⟩ := by
  rw [validate_eq, inspect_mapOf_obj, each_entry_outcome_eq_error h]
  simp only [under_outcome_eq_ok, under_outcome_eq_error, ← validate_eq]
  constructor
  · rintro ⟨p, hmem, hbefore, e', hp, rfl⟩
    exact ⟨p.1, e', ⟨⟨p.2, hmem, hp⟩, fun k v hk hlt => hbefore (k, v) hk hlt⟩, rfl⟩
  · rintro ⟨k, e', ⟨⟨v, hmem, hv⟩, hbefore⟩, rfl⟩
    exact ⟨(k, v), hmem, fun q hq hlt => hbefore q.1 q.2 hq hlt, e', hv, rfl⟩

theorem validate_shape_eq_error (h : Json.Ascending entries) :
    (Schema.shape fields).validate mode (.obj entries) = .error e ↔
      FirstField fields mode entries e ∨
        (∀ f ∈ Field.declared fields, f.Passes mode entries) ∧
          ∃ key, LeastUnexpected fields mode entries key ∧ e = .unexpected key := by
  rw [validate_eq, inspect_shape_obj, andThen_outcome_eq_error, firstField_iff,
    forall_passes_iff, exists_leastUnexpected_iff h]

theorem check_outcome_eq_error {s : Schema} {path : Frame} {found : Option Json} :
    (s.check mode path found).outcome = .error e ↔
      ∃ e', (s.check mode .root found).outcome = .error e' ∧
        e = ⟨e'.kind, path.segments ++ e'.location, e'.reason⟩ := by
  rw [s.rerooted, s.check_root, below, mapError_outcome_eq_error]
  simp only [eq_comm (b := e), Violation.below]

end Validate

/-- A violation under a path is the violation at the root with the path in front. Arrays, maps and
shapes report the first part that fails, and a shape checks the keys after all fields. -/
theorem first_failure_is_reported (mode : Mode) (e : Violation) :
    (∀ (s : Schema) (path : Frame) (found : Option Json),
      (s.check mode path found).outcome = .error e ↔
        ∃ e', (s.check mode .root found).outcome = .error e' ∧
          e = ⟨e'.kind, path.segments ++ e'.location, e'.reason⟩) ∧
      (∀ (items : Schema) (values : List Json),
        (Schema.arrayOf items).validate mode (.arr values) = .error e ↔
          ∃ i e', items.FirstItem mode values i e' ∧
            e = ⟨e'.kind, .index i :: e'.location, e'.reason⟩) ∧
      ∀ entries, Json.Ascending entries →
        (∀ values : Schema, (Schema.mapOf values).validate mode (.obj entries) = .error e ↔
          ∃ key e', values.LeastEntry mode entries key e' ∧
            e = ⟨e'.kind, .field key :: e'.location, e'.reason⟩) ∧
        ∀ fields, (Schema.shape fields).validate mode (.obj entries) = .error e ↔
          FirstField fields mode entries e ∨
            (∀ f ∈ Field.declared fields, f.Passes mode entries) ∧
              ∃ key, LeastUnexpected fields mode entries key ∧ e = .unexpected key := by
  refine ⟨fun s path found => check_outcome_eq_error,
    fun items values => validate_arrayOf_eq_error, fun entries h => ⟨?_, ?_⟩⟩
  · intro values
    exact validate_mapOf_eq_error h
  · intro fields
    exact validate_shape_eq_error h

theorem first_failure_is_reported_before_keys :
    let entries : List (String × Json) := [("$a", .null), ("b", .null)]
    let fields : List Field := [⟨"$c", false, .null⟩, ⟨"d", false, .null⟩]
    let path : Frame := (Frame.root.field "e").index 3
    let missing (location : Location) : Violation :=
      ⟨.missingField, location, .notPrimitive .null none⟩
    let refused : Violation := ⟨.shapeMismatch, [.field "$a"], .notPrimitive .string (some .null)⟩
    Json.object [("b", .null), ("$a", .null)] = .obj entries ∧ Json.Ascending entries ∧
      FirstField fields .strict entries (missing [.field "d"]) ∧
      (Schema.shape fields).validate .strict (.obj entries) = .error (missing [.field "d"]) ∧
      ((Schema.shape fields).check .strict path (some (.obj entries))).outcome =
        .error (missing [.field "e", .index 3, .field "d"]) ∧
      (Schema.mapOf .string).validate .strict (.obj entries) = .error refused ∧
      ∃ key e', Schema.string.LeastEntry .strict entries key e' ∧
        refused = ⟨e'.kind, .field key :: e'.location, e'.reason⟩ := by
  intro entries fields path missing refused
  have hobject : Json.object [("b", .null), ("$a", .null)] = .obj entries := rfl
  have hascending : Json.Ascending entries := by
    obtain ⟨_, hentries, h⟩ := Json.ascending_object [("b", .null), ("$a", .null)]
    cases hobject.symm.trans hentries
    exact h
  have hfirst : FirstField fields .strict entries (missing [.field "d"]) := by
    refine ⟨[], ⟨"d", false, .null⟩, [], rfl, List.forall_mem_nil _, ?_⟩
    exact .absent (e := ⟨.shapeMismatch, [], .notPrimitive .null none⟩) rfl rfl rfl
  have hmissing : (Schema.shape fields).validate .strict (.obj entries) =
      .error (missing [.field "d"]) :=
    (((first_failure_is_reported .strict _).2.2 entries hascending).2 fields).2 (.inl hfirst)
  have hunder := ((first_failure_is_reported .strict
    (missing [.field "e", .index 3, .field "d"])).1 (.shape fields) path (some (.obj entries))).2
  have hrefused := (first_failure_is_reported .strict refused).2.2 entries hascending
  exact ⟨hobject, hascending, hfirst, hmissing, hunder ⟨_, hmissing, rfl⟩, rfl,
    (hrefused.1 .string).1 rfl⟩

end Schema

end ApiContract
