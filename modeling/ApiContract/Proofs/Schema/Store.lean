import ApiContract.Proofs.Lists
import ApiContract.Proofs.Schema.Naming

namespace ApiContract.Shape

inductive Edit where
  | field (name : String) (schema : Schema)
  | optional (name : String) (schema : Schema)
  | insert (f : Field)
  | reset (fields : List Field)

namespace Edit

def apply (shape : Shape) : Edit → Shape
  | .field name schema => shape.field name schema
  | .optional name schema => shape.optional name schema
  | .insert f => shape.insert f
  | .reset fields => ofList fields

def brings : Edit → List Field
  | .field name schema => [⟨name, false, schema⟩]
  | .optional name schema => [⟨name, true, schema⟩]
  | .insert f => [f]
  | .reset fields => fields

def isReset : Edit → Bool
  | .reset _ => true
  | _ => false

end Edit

def edited (edits : List Edit) : Shape :=
  edits.foldl Edit.apply empty

def history : List Edit → List Field
  | [] => []
  | edit :: later =>
    if later.any Edit.isReset then history later else edit.brings ++ history later

def Latest (history : List Field) (f : Field) : Prop :=
  ∃ before after, history = before ++ f :: after ∧ f.name ∉ Field.names after

section Latest

variable {fields : List Field} {f g : Field}

theorem Latest.mem_names (h : Latest fields f) : f.name ∈ Field.names fields := by
  obtain ⟨before, after, rfl, _⟩ := h
  simp

theorem latest_append_singleton (fields : List Field) (f : Field) : Latest (fields ++ [f]) f :=
  ⟨fields, [], rfl, List.not_mem_nil⟩

theorem Latest.append_singleton (h : Latest fields f) (hname : f.name ≠ g.name) :
    Latest (fields ++ [g]) f := by
  obtain ⟨before, after, rfl, hafter⟩ := h
  refine ⟨before, after ++ [g], by simp, ?_⟩
  simp [hafter, hname]

theorem Latest.eq (hf : Latest fields f) (hg : Latest fields g) (hname : f.name = g.name) :
    f = g := by
  obtain ⟨before, after, rfl, hafter⟩ := hf
  obtain ⟨before', after', hsplit, hafter'⟩ := hg
  -- of two splits at different places, the field of the earlier one comes again in the later one
  rcases List.append_eq_append_iff.1 hsplit with ⟨between, _, hrest⟩ | ⟨between, _, hrest⟩
  · cases between with
    | nil => exact (List.cons.inj hrest).1
    | cons k between =>
      obtain ⟨_, rfl⟩ := List.cons.inj hrest
      simp [hname] at hafter
  · cases between with
    | nil => exact (List.cons.inj hrest).1.symm
    | cons k between =>
      obtain ⟨_, rfl⟩ := List.cons.inj hrest
      simp [hname] at hafter'

end Latest

/-- A shape holds the latest field of each name, in the order in which the names first came. -/
structure Keeps (history : List Field) (shape : Shape) : Prop where
  names : Field.names shape.fields = (Field.names history).eraseDups
  latest : ∀ f ∈ shape.fields, Latest history f

section Keeps

variable {fields : List Field} {shape : Shape} {field : Field}

theorem keeps_empty : Keeps [] empty :=
  ⟨rfl, List.forall_mem_nil _⟩

theorem eq_or_name_ne_of_mem_put {f : Field} (hnodup : (Field.names fields).Nodup)
    (h : f ∈ field.put fields) : f = field ∨ f ∈ fields ∧ f.name ≠ field.name := by
  induction fields with
  | nil => exact .inl (List.mem_singleton.1 h)
  | cons g rest ih =>
    rw [Field.names_cons, List.nodup_cons] at hnodup
    rw [Field.put] at h
    split at h
    · rename_i hname
      rcases List.mem_cons.1 h with rfl | hf
      · exact .inl rfl
      · refine .inr ⟨List.mem_cons_of_mem g hf, ?_⟩
        intro heq
        apply hnodup.1
        rw [hname, ← heq]
        exact List.mem_map_of_mem hf
    · rename_i hname
      rcases List.mem_cons.1 h with rfl | hf
      · exact .inr ⟨List.mem_cons_self, hname⟩
      · exact (ih hnodup.2 hf).imp_right (And.imp_left (List.mem_cons_of_mem g))

theorem names_insert (shape : Shape) (field : Field) :
    Field.names (shape.insert field).fields =
      if field.name ∈ Field.names shape.fields then Field.names shape.fields
      else Field.names shape.fields ++ [field.name] := by
  split
  · rename_i h
    exact Field.names_put_of_mem h
  · rename_i h
    rw [insert_fields, Field.put_of_not_mem h, Field.names_append, Field.names_cons,
      Field.names_nil]

theorem Keeps.insert (h : Keeps fields shape) (field : Field) :
    Keeps (fields ++ [field]) (shape.insert field) := by
  constructor
  · rw [names_insert, h.names, Field.names_append, Field.names_cons, Field.names_nil,
      eraseDups_append_singleton]
  · intro f hf
    rcases eq_or_name_ne_of_mem_put shape.nodup hf with rfl | ⟨hf, hname⟩
    · exact latest_append_singleton fields f
    · exact (h.latest f hf).append_singleton hname

theorem keeps_ofList (fields : List Field) : Keeps fields (ofList fields) := by
  induction fields using List.reverseRecOn with
  | nil => exact keeps_empty
  | append_singleton fields field ih =>
    rw [ofList, List.foldl_append]
    exact ih.insert field

theorem Keeps.apply (h : Keeps fields shape) (edit : Edit) :
    Keeps (if edit.isReset then edit.brings else fields ++ edit.brings) (edit.apply shape) := by
  cases edit with
  | field name schema => exact h.insert _
  | optional name schema => exact h.insert _
  | insert f => exact h.insert f
  | reset fields => exact keeps_ofList fields

theorem Keeps.get?_eq_some_iff (h : Keeps fields shape) {name : String} {f : Field} :
    shape.get? name = some f ↔ f.name = name ∧ Latest fields f := by
  constructor
  · intro hget
    exact ⟨by simpa using List.find?_some hget, h.latest f (List.mem_of_find?_eq_some hget)⟩
  · rintro ⟨rfl, hf⟩
    have hmem : f.name ∈ Field.names shape.fields := by
      rw [h.names, List.mem_eraseDups]
      exact hf.mem_names
    obtain ⟨g, hg, hname⟩ := List.mem_map.1 hmem
    cases hget : shape.get? f.name with
    | none => simpa [hname] using List.find?_eq_none.1 hget g hg
    | some k =>
      have hk : k.name = f.name := by simpa using List.find?_some hget
      rw [(h.latest k (List.mem_of_find?_eq_some hget)).eq hf hk]

theorem Keeps.get?_eq_none_iff (h : Keeps fields shape) {name : String} :
    shape.get? name = none ↔ name ∉ Field.names fields := by
  rw [← List.mem_eraseDups, ← h.names, get?, List.find?_eq_none]
  simp [Field.names]

end Keeps

theorem history_append_singleton (edits : List Edit) (edit : Edit) :
    history (edits ++ [edit]) =
      if edit.isReset then edit.brings else history edits ++ edit.brings := by
  induction edits with
  | nil => simp [history]
  | cons first later ih =>
    rw [List.cons_append, history, history, List.any_append, ih]
    cases hedit : edit.isReset <;> cases later.any Edit.isReset <;> simp [hedit]

theorem keeps_edited (edits : List Edit) : Keeps (history edits) (edited edits) := by
  induction edits using List.reverseRecOn with
  | nil => exact keeps_empty
  | append_singleton edits edit ih =>
    rw [history_append_singleton, edited, List.foldl_append]
    exact ih.apply edit

/-- After any edits the names of a shape are distinct and in the order of their first insertion
since the last reset. Each name has its latest field, which is also the one that is looked up, and
the shape can be built again from its fields. -/
theorem edited_keeps_latest (edits : List Edit) :
    (Field.names (edited edits).fields).Nodup ∧
      Field.names (edited edits).fields = (Field.names (history edits)).eraseDups ∧
      (∀ f ∈ (edited edits).fields, Latest (history edits) f) ∧
      (∀ name f, (edited edits).get? name = some f ↔
        f.name = name ∧ Latest (history edits) f) ∧
      (∀ name, (edited edits).get? name = none ↔ name ∉ Field.names (history edits)) ∧
      ofList (edited edits).fields = edited edits := by
  have h := keeps_edited edits
  refine ⟨(edited edits).nodup, h.names, h.latest, ?_, ?_, ofList_fields (edited edits)⟩
  · intro name f
    exact h.get?_eq_some_iff
  · intro name
    exact h.get?_eq_none_iff

end ApiContract.Shape
