import ApiContract.Proofs.Schema.Combinators
import ApiContract.Proofs.Schema.Culprit
import ApiContract.Proofs.Schema.Strictness

namespace ApiContract

namespace Inspection

variable {call : Call}

theorem mem_calls_andThen {first : Inspection} {second : Unit → Inspection} :
    call ∈ (first.andThen second).calls ↔
      call ∈ first.calls ∨ first.outcome = .ok () ∧ call ∈ (second ()).calls := by
  cases h : first.outcome <;> simp [andThen, h]

theorem andThen_calls_of_ok {first : Inspection} (h : first.outcome = .ok ())
    (second : Unit → Inspection) :
    (first.andThen second).calls = first.calls ++ (second ()).calls := by
  rw [andThen, h]

theorem mem_calls_orElse {first : Inspection} {second : Unit → Inspection}
    (h : call ∈ (first.orElse second).calls) : call ∈ first.calls ∨ call ∈ (second ()).calls := by
  cases hfirst : first.outcome with
  | ok => exact .inl (by simpa [orElse, hfirst] using h)
  | error => simpa [orElse, hfirst] using h

theorem mem_calls_each {α : Type} {check : α → Inspection} {parts : List α}
    (h : call ∈ (each check parts).calls) : ∃ a ∈ parts, call ∈ (check a).calls := by
  induction parts with
  | nil => cases h
  | cons a rest ih =>
    rcases mem_calls_andThen.1 h with ha | ⟨_, hrest⟩
    · exact ⟨a, List.mem_cons_self, ha⟩
    · obtain ⟨b, hb, hcall⟩ := ih hrest
      exact ⟨b, List.mem_cons_of_mem a hb, hcall⟩

theorem key_calls (allowed : Option (List String)) (k : String) : (key allowed k).calls = [] := by
  rw [key]
  split
  · rfl
  · split <;> rfl

theorem each_key_calls (allowed : Option (List String)) (entries : List (String × Json)) :
    (each (fun p => key allowed p.1) entries).calls = [] := by
  rw [List.eq_nil_iff_forall_not_mem]
  intro call h
  obtain ⟨p, _, hp⟩ := mem_calls_each h
  simp [key_calls] at hp

theorem predicate_calls (p : Predicate) (v : Json) :
    (predicate (some p) (some v)).calls = [⟨p, v⟩] := by
  rw [predicate]
  split <;> rfl

theorem orElse_of_ok {first : Inspection} (h : first.outcome = .ok ())
    (second : Unit → Inspection) : first.orElse second = first := by
  rw [orElse, h]

theorem orElse_calls_of_ne_ok {first : Inspection} (h : first.outcome ≠ .ok ())
    (second : Unit → Inspection) :
    (first.orElse second).calls = first.calls ++ (second ()).calls := by
  cases hfirst : first.outcome with
  | ok => exact absurd hfirst h
  | error => rw [orElse, hfirst]

end Inspection

open Inspection

namespace Schema

/-- Checking `s` on a value comes to a schema inside `s` at a part of the value. -/
inductive Meets : Schema → Json → Location → Schema → Json → Prop
  | here {s v} : Meets s v [] s v
  | field {fields entries f v location t w} : f ∈ fields → f.isMeta = false →
    entries.lookup f.name = some v → Meets f.schema v location t w →
    Meets (.shape fields) (.obj entries) (.field f.name :: location) t w
  | item {items values i v location t w} : values[i]? = some v → Meets items v location t w →
    Meets (.arrayOf items) (.arr values) (.index i :: location) t w
  | entry {values entries k v location t w} : (k, v) ∈ entries → Meets values v location t w →
    Meets (.mapOf values) (.obj entries) (.field k :: location) t w
  | variant {variants s v location t w} : s ∈ variants → Meets s v location t w →
    Meets (.anyOf variants) v location t w
  | member {members s v location t w} : s ∈ members → Meets s v location t w →
    Meets (.allOf members) v location t w
  | base {base predicate v location t w} : Meets base v location t w →
    Meets (.refined base predicate) v location t w

theorem Meets.leadsTo {s t : Schema} {v w : Json} {location : Location}
    (h : Meets s v location t w) : v.At location w := by
  induction h with
  | here => exact .here
  | field _ _ hv _ ih => exact .step (.field (mem_of_lookup hv)) ih
  | item hv _ ih => exact .step (.index hv) ih
  | entry hv _ ih => exact .step (.field hv) ih
  | variant _ _ ih => exact ih
  | member _ _ ih => exact ih
  | base _ ih => exact ih

theorem inspect_none_calls (s : Schema) (mode : Mode) : (s.inspect mode none).calls = [] := by
  obtain ⟨e, he, _⟩ := s.inspect_none mode
  rw [he]

end Schema

theorem Field.mem_calls_inspect {f : Field} {mode : Mode} {entries : List (String × Json)}
    {call : Call} (h : call ∈ (f.inspect mode entries).calls) :
    f.isMeta = false ∧
      ∃ v, entries.lookup f.name = some v ∧ call ∈ (f.schema.inspect mode (some v)).calls := by
  rw [Field.inspect] at h
  split at h
  · cases h
  · rename_i hmeta
    refine ⟨by simpa using hmeta, ?_⟩
    split at h
    · exact ⟨_, by assumption, h⟩
    · split at h
      · cases h
      · -- an absent field is inspected with nothing found, and that makes no calls
        rw [mapError_calls, under_calls, f.schema.inspect_none_calls] at h
        cases h

namespace Schema

theorem mem_calls_inspectVariants {variants : List Schema} {mode : Mode} {found : Option Json}
    {call : Call} (h : call ∈ (inspectVariants variants mode found).calls) :
    ∃ s ∈ variants, call ∈ (s.inspect mode found).calls := by
  induction variants with
  | nil => cases h
  | cons s rest ih =>
    rw [inspectVariants] at h
    rcases mem_calls_orElse h with hs | hrest
    · exact ⟨s, List.mem_cons_self, hs⟩
    · obtain ⟨t, ht, hcall⟩ := ih hrest
      exact ⟨t, List.mem_cons_of_mem s ht, hcall⟩

theorem inspectKeys_calls (members : List Schema) (mode : Mode) (found : Option Json) :
    (inspectKeys members mode found).calls = [] := by
  unfold inspectKeys
  split
  · exact each_key_calls _ _
  · rfl

def Vetted (s : Schema) (v : Json) (call : Call) : Prop :=
  ∃ base location, Meets s v location (.refined base (some call.predicate)) call.value ∧
    base.validate .lenient call.value = .ok ()

theorem Vetted.lift {s t : Schema} {v w : Json} {call : Call} (h : Vetted t w call)
    (segments : Location)
    (hmeets : ∀ {location u x}, Meets t w location u x → Meets s v (segments ++ location) u x) :
    Vetted s v call := by
  obtain ⟨base, location, hbase, haccepts⟩ := h
  exact ⟨base, segments ++ location, hmeets hbase, haccepts⟩

theorem vetted_of_mem_calls {s : Schema} {mode : Mode} {v : Json} {call : Call}
    (h : call ∈ (s.inspect mode (some v)).calls) : Vetted s v call := by
  induction s generalizing mode v with
  | primitive p =>
    rw [inspect] at h
    split at h <;> cases h
  | literal l =>
    rw [inspect] at h
    split at h <;> cases h
  | shape fields ih =>
    cases v with
    | obj entries =>
      rw [inspect_shape_obj, mem_calls_andThen, each_key_calls] at h
      obtain ⟨f, hf, hcall⟩ := mem_calls_each (h.resolve_right (by simp))
      obtain ⟨hmeta, w, hw, hcall⟩ := Field.mem_calls_inspect hcall
      exact (ih f hf hcall).lift [.field f.name] (.field hf hmeta hw)
    | _ => cases h
  | arrayOf items ih =>
    cases v with
    | arr values =>
      rw [inspect, items_eq_each] at h
      obtain ⟨⟨w, i⟩, hw, hcall⟩ := mem_calls_each h
      rw [List.mk_mem_zipIdx_iff_getElem?] at hw
      exact (ih hcall).lift [.index i] (.item hw)
    | _ => cases h
  | mapOf values ih =>
    cases v with
    | obj entries =>
      rw [inspect_mapOf_obj] at h
      obtain ⟨⟨k, w⟩, hw, hcall⟩ := mem_calls_each h
      exact (ih hcall).lift [.field k] (.entry hw)
    | _ => cases h
  | anyOf variants ih =>
    rw [inspect] at h
    split at h
    · cases h
    · obtain ⟨s, hs, hcall⟩ := mem_calls_inspectVariants h
      exact (ih s hs hcall).lift [] (.variant hs)
  | allOf members ih =>
    by_cases hmembers : Intersects members
    · rw [inspect_allOf hmembers, mem_calls_andThen, inspectKeys_calls] at h
      obtain ⟨s, hs, hcall⟩ := mem_calls_each (h.resolve_right (by simp))
      exact (ih s hs hcall).lift [] (.member hs)
    · obtain ⟨reason, hfail⟩ := inspect_allOf_of_not_intersects hmembers mode (some v)
      rw [hfail] at h
      cases h
  | refined base predicate ih =>
    rw [inspect, mem_calls_andThen] at h
    rcases h with h | ⟨hbase, h⟩
    · exact (ih h).lift [] .base
    · cases predicate with
      | none => cases h
      | some p =>
        rw [predicate_calls, List.mem_singleton] at h
        subst h
        refine ⟨base, [], .here, validate_eq_ok.2 ?_⟩
        exact (inspect_outcome_eq_ok.1 hbase).lenient

theorem inspectVariants_calls_of_accepts {before after : List Schema} {s : Schema} {mode : Mode}
    {v : Json} (hbefore : ∀ t ∈ before, t.validate mode v ≠ .ok ())
    (h : s.validate mode v = .ok ()) :
    (inspectVariants (before ++ s :: after) mode (some v)).calls =
      before.flatMap (fun t => (t.inspect mode (some v)).calls) ++
        (s.inspect mode (some v)).calls := by
  rw [validate_eq] at h
  induction before with
  | nil => rw [List.nil_append, inspectVariants, orElse_of_ok h]; rfl
  | cons t rest ih =>
    obtain ⟨ht, hrest⟩ := List.forall_mem_cons.1 hbefore
    rw [validate_eq] at ht
    rw [List.cons_append, inspectVariants, orElse_calls_of_ne_ok ht, ih hrest, List.flatMap_cons,
      List.append_assoc]

theorem inspect_anyOf_calls_of_accepts {before : List Schema} {s : Schema} {mode : Mode} {v : Json}
    (hbefore : ∀ t ∈ before, t.validate mode v ≠ .ok ()) (h : s.validate mode v = .ok ())
    (after : List Schema) :
    ((Schema.anyOf (before ++ [s] ++ after)).inspect mode (some v)).calls =
      before.flatMap (fun t => (t.inspect mode (some v)).calls) ++
        (s.inspect mode (some v)).calls := by
  rw [inspect_anyOf (by simp), List.append_assoc, List.singleton_append,
    inspectVariants_calls_of_accepts hbefore h]

theorem inspect_refined_calls_of_accepts {base : Schema} {mode : Mode} {v : Json}
    (h : base.validate mode v = .ok ()) (p : Predicate) :
    ((Schema.refined base (some p)).inspect mode (some v)).calls =
      (base.inspect mode (some v)).calls ++ [⟨p, v⟩] := by
  rw [validate_eq] at h
  rw [inspect, andThen_calls_of_ok h, predicate_calls]

/-- Predicates are called on parts of the value that the base of their refinement accepts, and never
for an absent field. A union calls those of its variants up to the first that accepts, and a
refinement whose base accepts calls its own. -/
theorem predicates_see_vetted_values (s : Schema) (mode : Mode) :
    (∀ path v, ∀ call ∈ (s.check mode path (some v)).calls, ∃ base location,
      Meets s v location (.refined base (some call.predicate)) call.value ∧
        v.At location call.value ∧ base.validate .lenient call.value = .ok ()) ∧
      (∀ path, (s.check mode path none).calls = []) ∧
      (∀ path v (before after : List Schema), (∀ t ∈ before, t.validate mode v ≠ .ok ()) →
        s.validate mode v = .ok () →
        ((Schema.anyOf (before ++ [s] ++ after)).check mode path (some v)).calls =
            ((Schema.anyOf (before ++ [s])).check mode path (some v)).calls ∧
          ((Schema.anyOf (before ++ [s])).check mode path (some v)).calls =
            before.flatMap (fun t => (t.check mode path (some v)).calls) ++
              (s.check mode path (some v)).calls) ∧
      ∀ path v p, s.validate mode v = .ok () →
        ((Schema.refined s (some p)).check mode path (some v)).calls =
          (s.check mode path (some v)).calls ++ [⟨p, v⟩] := by
  simp only [check_calls]
  refine ⟨fun _ v call hcall => ?_, fun _ => s.inspect_none_calls mode, ?_, ?_⟩
  · obtain ⟨base, location, hmeets, hbase⟩ := vetted_of_mem_calls hcall
    exact ⟨base, location, hmeets, hmeets.leadsTo, hbase⟩
  · intro _ v before after hbefore haccepts
    have hcalls := inspect_anyOf_calls_of_accepts hbefore haccepts
    have hlast := hcalls []
    rw [List.append_nil] at hlast
    exact ⟨(hcalls after).trans hlast.symm, hlast⟩
  · intro _ v p haccepts
    exact inspect_refined_calls_of_accepts haccepts p

theorem predicates_see_vetted_values_given_up :
    let never : Predicate := ⟨"never", fun _ => .reject⟩
    let always : Predicate := ⟨"always", fun _ => .accept⟩
    let tags : Predicate → Schema := fun p => .shape [⟨"tags", true, .arrayOf (.refined .string p)⟩]
    let v : Json := .obj [("tags", .arr [.str "a"])]
    let union : Schema := .anyOf [tags never, tags always, tags never]
    (tags never).validate .strict v ≠ .ok () ∧ (tags always).validate .strict v = .ok () ∧
      (union.check .strict .root (some v)).calls = [⟨never, .str "a"⟩, ⟨always, .str "a"⟩] ∧
      ∃ base location, Meets union v location (.refined base (some never)) (.str "a") ∧
        v.At location (.str "a") ∧ base.validate .lenient (.str "a") = .ok () := by
  intro never always tags v union
  have hrefused : (tags never).validate .strict v ≠ .ok () := by
    have herror : (tags never).validate .strict v = .error
        ⟨.customValidationFailed, [.field "tags", .index 0], .refused (.str "a")⟩ := by cbv
    simp [herror]
  have haccepts : (tags always).validate .strict v = .ok () := by cbv
  have hcalls : (union.check .strict .root (some v)).calls =
      [⟨never, .str "a"⟩, ⟨always, .str "a"⟩] := by
    obtain ⟨hafter, hexact⟩ := (predicates_see_vetted_values (tags always) .strict).2.2.1 .root v
      [tags never] [tags never] (List.forall_mem_singleton.2 hrefused) haccepts
    exact (hafter.trans hexact).trans (by cbv)
  refine ⟨hrefused, haccepts, hcalls, ?_⟩
  exact (predicates_see_vetted_values union .strict).1 .root v ⟨never, .str "a"⟩ (by simp [hcalls])

end Schema

end ApiContract
