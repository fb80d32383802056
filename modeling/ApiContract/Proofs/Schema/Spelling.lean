import ApiContract.Proofs.Schema.Wire
import Mathlib

namespace ApiContract.Schema

inductive FieldNests : Json → Json → Prop
  | member {members k} : ("schema", k) ∈ members → FieldNests (.obj members) k
  | item {name optional k rest} : FieldNests (.arr (name :: optional :: k :: rest)) k

inductive Nests : Json → Json → Prop
  | arrayOf {k} : Nests (.obj [("array_of", k)]) k
  | mapOf {k} : Nests (.obj [("map_of", k)]) k
  | anyOf {items k} : k ∈ items → Nests (.obj [("any_of", .arr items)]) k
  | allOf {items k} : k ∈ items → Nests (.obj [("all_of", .arr items)]) k
  | field {items f k} : f ∈ items → FieldNests f k → Nests (.obj [("shape", .arr items)]) k
  | refined {members k} : ("base", k) ∈ members → Nests (.obj [("refined", .obj members)]) k
  | refinedItem {k} : Nests (.obj [("refined", .arr [k])]) k

def SchemaAt : Json → Json → Prop :=
  Relation.ReflTransGen Nests

theorem sizeOf_lt_of_item {k : Json} {items : List Json} (h : k ∈ items) :
    sizeOf k < sizeOf (Json.arr items) := by
  have hitem := List.sizeOf_lt_of_mem h
  simp only [Json.arr.sizeOf_spec]
  omega

theorem sizeOf_lt_of_member {key : String} {k : Json} {members : List (String × Json)}
    (h : (key, k) ∈ members) : sizeOf k < sizeOf (Json.obj members) := by
  have hmember := List.sizeOf_lt_of_mem h
  simp only [Json.obj.sizeOf_spec, Prod.mk.sizeOf_spec] at hmember ⊢
  omega

theorem FieldNests.sizeOf_lt {f k : Json} (h : FieldNests f k) : sizeOf k < sizeOf f := by
  cases h with
  | member hk => exact sizeOf_lt_of_member hk
  | item => exact sizeOf_lt_of_item (by simp)

theorem Nests.sizeOf_lt {j k : Json} (h : Nests j k) : sizeOf k < sizeOf j := by
  have hcontent (kind : String) (j : Json) : sizeOf j < sizeOf (Json.obj [(kind, j)]) :=
    sizeOf_lt_of_member (List.mem_singleton_self _)
  cases h with
  | arrayOf | mapOf => exact hcontent _ k
  | anyOf hk | allOf hk => exact (sizeOf_lt_of_item hk).trans (hcontent _ _)
  | field hf hk => exact (hk.sizeOf_lt.trans (sizeOf_lt_of_item hf)).trans (hcontent _ _)
  | refined hk => exact (sizeOf_lt_of_member hk).trans (hcontent _ _)
  | refinedItem => exact (sizeOf_lt_of_item (List.mem_singleton_self k)).trans (hcontent _ _)

@[elab_as_elim]
theorem nestsInduction {motive : Json → Prop}
    (step : ∀ j, (∀ k, Nests j k → motive k) → motive j) (j : Json) : motive j :=
  (measure sizeOf).wf.induction j fun j ih => step j fun k hk => ih k hk.sizeOf_lt

def respellMembers (r : Json → Json) (key : String) (members : List (String × Json)) :
    List (String × Json) :=
  members.map fun p => (p.1, if p.1 = key then r p.2 else p.2)

@[simp]
theorem respellMembers_cons (r : Json → Json) (key : String) (p : String × Json)
    (members : List (String × Json)) : respellMembers r key (p :: members) =
      (p.1, if p.1 = key then r p.2 else p.2) :: respellMembers r key members :=
  rfl

def respellField (r : Json → Json) : Json → Json
  | .obj members => .obj (respellMembers r "schema" members)
  | .arr (name :: optional :: schema :: rest) => .arr (name :: optional :: r schema :: rest)
  | j => j

def respell (r : Json → Json) : Json → Json
  | .obj [("shape", .arr items)] => .obj [("shape", .arr (items.map (respellField r)))]
  | .obj [("array_of", j)] => .obj [("array_of", r j)]
  | .obj [("map_of", j)] => .obj [("map_of", r j)]
  | .obj [("any_of", .arr items)] => .obj [("any_of", .arr (items.map r))]
  | .obj [("all_of", .arr items)] => .obj [("all_of", .arr (items.map r))]
  | .obj [("refined", .obj members)] => .obj [("refined", .obj (respellMembers r "base" members))]
  | .obj [("refined", .arr [j])] => .obj [("refined", .obj [("base", r j)])]
  | j => j

mutual

/-- Rewrites every refinement that is an array as an object. -/
def objectForm : Json → Json
  | .obj [("shape", .arr items)] => .obj [("shape", .arr (fieldObjectForms items))]
  | .obj [("array_of", j)] => .obj [("array_of", objectForm j)]
  | .obj [("map_of", j)] => .obj [("map_of", objectForm j)]
  | .obj [("any_of", .arr items)] => .obj [("any_of", .arr (objectForms items))]
  | .obj [("all_of", .arr items)] => .obj [("all_of", .arr (objectForms items))]
  | .obj [("refined", .obj members)] => .obj [("refined", .obj (memberObjectForms "base" members))]
  | .obj [("refined", .arr [j])] => .obj [("refined", .obj [("base", objectForm j)])]
  | j => j
termination_by structural j => j

def objectForms : List Json → List Json
  | [] => []
  | j :: rest => objectForm j :: objectForms rest
termination_by structural items => items

def memberObjectForms (key : String) : List (String × Json) → List (String × Json)
  | [] => []
  | (k, j) :: rest => (k, if k = key then objectForm j else j) :: memberObjectForms key rest
termination_by structural members => members

def fieldObjectForm : Json → Json
  | .obj members => .obj (memberObjectForms "schema" members)
  | .arr (name :: optional :: schema :: rest) =>
    .arr (name :: optional :: objectForm schema :: rest)
  | j => j
termination_by structural j => j

def fieldObjectForms : List Json → List Json
  | [] => []
  | j :: rest => fieldObjectForm j :: fieldObjectForms rest
termination_by structural items => items

end

theorem objectForms_eq_map (items : List Json) : objectForms items = items.map objectForm := by
  induction items with
  | nil => rfl
  | cons j rest ih => rw [objectForms, ih, List.map_cons]

theorem memberObjectForms_eq (key : String) (members : List (String × Json)) :
    memberObjectForms key members = respellMembers objectForm key members := by
  induction members with
  | nil => rfl
  | cons p rest ih => rw [memberObjectForms, ih, respellMembers_cons]

theorem fieldObjectForm_eq (f : Json) : fieldObjectForm f = respellField objectForm f := by
  unfold fieldObjectForm respellField
  split
  · rw [memberObjectForms_eq]
  · rfl
  · rfl

theorem fieldObjectForms_eq_map (items : List Json) :
    fieldObjectForms items = items.map (respellField objectForm) := by
  induction items with
  | nil => rfl
  | cons j rest ih => rw [fieldObjectForms, fieldObjectForm_eq, ih, List.map_cons]

theorem objectForm_eq_respell (j : Json) : objectForm j = respell objectForm j := by
  unfold respell
  split
  · rw [objectForm, fieldObjectForms_eq_map]
  · rw [objectForm]
  · rw [objectForm]
  · rw [objectForm, objectForms_eq_map]
  · rw [objectForm, objectForms_eq_map]
  · rw [objectForm, memberObjectForms_eq]
  · rw [objectForm]
  · rw [objectForm] <;> assumption

variable {form form' : Form} {r : Json → Json}

theorem baseOfMembers_respell {members : List (String × Json)} {base : Schema}
    (h : ∀ k, ("base", k) ∈ members → ∀ s, ofJson form k = .ok s → ofJson form' (r k) = .ok s)
    (hread : baseOfMembers form members = .ok base) :
    baseOfMembers form' (respellMembers r "base" members) = .ok base := by
  induction members with
  | nil => cases hread
  | cons p rest ih =>
    obtain ⟨key, j⟩ := p
    rw [baseOfMembers] at hread
    rw [respellMembers_cons, baseOfMembers]
    split at hread
    next hkey =>
      subst hkey
      simpa using h j (by simp) base hread
    next hkey =>
      simpa [hkey] using ih (fun k hk => h k (List.mem_cons_of_mem _ hk)) hread

theorem fieldParts_respell {members : List (String × Json)} {parts result : FieldParts}
    (h : ∀ k, ("schema", k) ∈ members → ∀ s, ofJson form k = .ok s → ofJson form' (r k) = .ok s)
    (hread : fieldParts form parts members = .ok result) :
    fieldParts form' parts (respellMembers r "schema" members) = .ok result := by
  induction members generalizing parts with
  | nil => exact hread
  | cons p rest ih =>
    obtain ⟨key, j⟩ := p
    have hrest := fun parts => @ih parts fun k hk => h k (List.mem_cons_of_mem _ hk)
    rw [respellMembers_cons]
    unfold fieldParts at hread
    split at hread
    · obtain ⟨name, hname, hread⟩ := Except.bind_eq_ok.1 hread
      exact Except.bind_eq_ok.2 ⟨name, hname, hrest _ hread⟩
    · obtain ⟨optional, hoptional, hread⟩ := Except.bind_eq_ok.1 hread
      exact Except.bind_eq_ok.2 ⟨optional, hoptional, hrest _ hread⟩
    · obtain ⟨schema, hschema, hread⟩ := Except.bind_eq_ok.1 hread
      exact Except.bind_eq_ok.2 ⟨schema, h j (by simp) schema hschema, hrest _ hread⟩
    · rename_i hschema
      rw [if_neg hschema, fieldParts]
      · exact hrest _ hread
      all_goals assumption

theorem fieldOfJson_respell {f : Json} {field : Field}
    (h : ∀ k, FieldNests f k → ∀ s, ofJson form k = .ok s → ofJson form' (r k) = .ok s)
    (hread : fieldOfJson form f = .ok field) :
    fieldOfJson form' (respellField r f) = .ok field := by
  apply WrittenField.fieldOfJson_eq
  cases writtenField_of_fieldOfJson hread with
  | members hparts hf =>
    exact .members (fieldParts_respell (fun k hk => h k (.member hk)) hparts) hf
  | items hname hoptional hschema => exact .items hname hoptional (h _ .item _ hschema)

theorem ofJson_respell {j : Json} {s : Schema}
    (h : ∀ k, Nests j k → ∀ s, ofJson form k = .ok s → ofJson form' (r k) = .ok s)
    (hread : ofJson form j = .ok s) : ofJson form' (respell r j) = .ok s := by
  apply Written.ofJson_eq
  cases written_of_ofJson hread with
  | primitive hp => exact .primitive hp
  | literal hl => exact .literal hl
  | shape hfields =>
    rw [fieldsOfJson_eq_mapM] at hfields
    refine .shape ?_
    rw [fieldsOfJson_eq_mapM]
    exact Except.mapM_map_of_mapM (fun f hf _ => fieldOfJson_respell fun k hk => h k (.field hf hk))
      hfields
  | arrayOf hitems => exact .arrayOf (h _ .arrayOf _ hitems)
  | mapOf hvalues => exact .mapOf (h _ .mapOf _ hvalues)
  | anyOf hvariants =>
    rw [listOfJson_eq_mapM] at hvariants
    refine .anyOf ?_
    rw [listOfJson_eq_mapM]
    exact Except.mapM_map_of_mapM (fun k hk => h k (.anyOf hk)) hvariants
  | allOf hmembers =>
    rw [listOfJson_eq_mapM] at hmembers
    refine .allOf ?_
    rw [listOfJson_eq_mapM]
    exact Except.mapM_map_of_mapM (fun k hk => h k (.allOf hk)) hmembers
  | refined hbase => exact .refined (baseOfMembers_respell (fun k hk => h k (.refined hk)) hbase)
  | refinedItem _ hbase =>
    refine .refined ?_
    rw [baseOfMembers, if_pos rfl]
    exact h _ .refinedItem _ hbase

theorem respellMembers_id (key : String) (members : List (String × Json)) :
    respellMembers id key members = members := by
  simp [respellMembers]

theorem respellField_id (f : Json) : respellField id f = f := by
  unfold respellField
  split
  · rw [respellMembers_id]
  · rfl
  · rfl

theorem respell_id {j : Json} (h : ∀ base, j ≠ .obj [("refined", .arr [base])]) :
    respell id j = j := by
  unfold respell
  split
  · rw [List.map_congr_left fun f _ => respellField_id f, List.map_id']
  · rfl
  · rfl
  · rw [List.map_id]
  · rw [List.map_id]
  · rw [respellMembers_id]
  · exact absurd rfl (h _)
  · rfl

theorem ofJson_objectForm {j : Json} {s : Schema} (h : ofJson form j = .ok s) (form' : Form) :
    ofJson form' (objectForm j) = .ok s := by
  induction j using nestsInduction generalizing s with
  | step j ih =>
    rw [objectForm_eq_respell]
    exact ofJson_respell (fun k hk _ => ih k hk) h

theorem ofJson_of_objects {j : Json} {s : Schema} (h : ofJson form j = .ok s)
    (hform : form = .slot → ∀ base, ¬SchemaAt j (.obj [("refined", .arr [base])]))
    (form' : Form) : ofJson form' j = .ok s := by
  induction j using nestsInduction generalizing s with
  | step j ih =>
    have hparts : ∀ k, Nests j k → ∀ s, ofJson form k = .ok s → ofJson form' (id k) = .ok s :=
      fun k hk s hs => ih k hk hs fun hslot base hbase => hform hslot base (.head hk hbase)
    have hitem : ∀ base, j ≠ .obj [("refined", .arr [base])] := by
      rintro base rfl
      cases form with
      | plain => cases h
      | slot => exact hform rfl base .refl
    rw [← respell_id hitem]
    exact ofJson_respell hparts h

end ApiContract.Schema
