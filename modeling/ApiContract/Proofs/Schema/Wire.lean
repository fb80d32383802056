import ApiContract.Proofs.Except
import ApiContract.Proofs.Json.Structure
import ApiContract.Proofs.Schema.Bare
import ApiContract.Schema.Wire

namespace ApiContract.Schema

theorem listToJson_eq_map (schemas : List Schema) : listToJson schemas = schemas.map toJson := by
  induction schemas with
  | nil => rfl
  | cons s rest ih => rw [listToJson, ih, List.map_cons]

theorem fieldsToJson_eq_map (fields : List Field) :
    fieldsToJson fields = fields.map fieldToJson := by
  induction fields with
  | nil => rfl
  | cons f rest ih => rw [fieldsToJson, ih, List.map_cons]

theorem listOfJson_eq_mapM (form : Form) (items : List Json) :
    listOfJson form items = items.mapM (ofJson form) := by
  induction items with
  | nil => rfl
  | cons j rest ih => rw [listOfJson, ih, List.mapM_cons]

theorem fieldsOfJson_eq_mapM (form : Form) (items : List Json) :
    fieldsOfJson form items = items.mapM (fieldOfJson form) := by
  induction items with
  | nil => rfl
  | cons j rest ih => rw [fieldsOfJson, ih, List.mapM_cons]

theorem fieldOfJson_fieldToJson {form : Form} {f : Field}
    (h : ofJson form f.schema.toJson = .ok f.schema.bare) :
    fieldOfJson form (fieldToJson f) = .ok f.bare := by
  obtain ⟨name, optional, schema⟩ := f
  cases optional <;>
    simp [fieldToJson, fieldOfJson, fieldParts, FieldParts.toField, Json.toStr, Json.toBool,
      Field.bare, bind, Except.bind, h]

theorem WellNamed.ofJson_toJson {s : Schema} (h : s.WellNamed) (form : Form) :
    ofJson form s.toJson = .ok s.bare := by
  induction h with
  | primitive =>
    rw [toJson, ofJson, Primitive.toJson, Primitive.ofJson, Json.toAlternative,
      Primitive.ofName?_name]
    rfl
  | literal =>
    rw [toJson, ofJson, Literal.ofJson, Literal.ofJson?_toJson]
    rfl
  | @shape fields hnames _ ih =>
    have hfields := Except.mapM_map_eq_ok fun f hf => fieldOfJson_fieldToJson (ih f hf)
    have hshape := @Shape.ofList_of_nodup (fields.map Field.bare) (by rwa [names_map_bare])
    rw [toJson, ofJson, fieldsToJson_eq_map, fieldsOfJson_eq_mapM, hfields, Except.map, hshape,
      bare_shape]
  | arrayOf _ ih =>
    rw [toJson, ofJson, ih]
    rfl
  | mapOf _ ih =>
    rw [toJson, ofJson, ih]
    rfl
  | anyOf _ ih =>
    rw [toJson, ofJson, listToJson_eq_map, listOfJson_eq_mapM, Except.mapM_map_eq_ok ih, bare_anyOf]
    rfl
  | allOf _ ih =>
    rw [toJson, ofJson, listToJson_eq_map, listOfJson_eq_mapM, Except.mapM_map_eq_ok ih, bare_allOf]
    rfl
  | refined _ ih =>
    rw [toJson, ofJson, baseOfMembers, if_pos rfl, ih]
    rfl

inductive Written (form : Form) : Json → Schema → Prop
  | primitive {j p} : Primitive.ofJson j = .ok p →
    Written form (.obj [("primitive", j)]) (.primitive p)
  | literal {j l} : Literal.ofJson j = .ok l → Written form (.obj [("literal", j)]) (.literal l)
  | shape {items fields} : fieldsOfJson form items = .ok fields →
    Written form (.obj [("shape", .arr items)]) (.shape (Shape.ofList fields).fields)
  | arrayOf {j s} : ofJson form j = .ok s → Written form (.obj [("array_of", j)]) (.arrayOf s)
  | mapOf {j s} : ofJson form j = .ok s → Written form (.obj [("map_of", j)]) (.mapOf s)
  | anyOf {items variants} : listOfJson form items = .ok variants →
    Written form (.obj [("any_of", .arr items)]) (.anyOf variants)
  | allOf {items members} : listOfJson form items = .ok members →
    Written form (.obj [("all_of", .arr items)]) (.allOf members)
  | refined {entries base} : baseOfMembers form entries = .ok base →
    Written form (.obj [("refined", .obj entries)]) (.refined base none)
  | refinedItem {j base} : form = .slot → ofJson form j = .ok base →
    Written form (.obj [("refined", .arr [j])]) (.refined base none)

theorem written_of_ofJson {form : Form} {j : Json} {s : Schema} (h : ofJson form j = .ok s) :
    Written form j s := by
  unfold ofJson at h
  split at h
  · split at h
    · obtain ⟨p, hp, rfl⟩ := Except.map_eq_ok.1 h
      exact .primitive hp
    · obtain ⟨l, hl, rfl⟩ := Except.map_eq_ok.1 h
      exact .literal hl
    · split at h
      · obtain ⟨fields, hfields, rfl⟩ := Except.map_eq_ok.1 h
        exact .shape hfields
      · cases h
    · obtain ⟨items, hitems, rfl⟩ := Except.map_eq_ok.1 h
      exact .arrayOf hitems
    · obtain ⟨values, hvalues, rfl⟩ := Except.map_eq_ok.1 h
      exact .mapOf hvalues
    · split at h
      · obtain ⟨variants, hvariants, rfl⟩ := Except.map_eq_ok.1 h
        exact .anyOf hvariants
      · cases h
    · split at h
      · obtain ⟨members, hmembers, rfl⟩ := Except.map_eq_ok.1 h
        exact .allOf hmembers
      · cases h
    · split at h
      · obtain ⟨base, hbase, rfl⟩ := Except.map_eq_ok.1 h
        exact .refined hbase
      · obtain ⟨base, hbase, rfl⟩ := Except.map_eq_ok.1 h
        exact .refinedItem rfl hbase
      · cases h
    · cases h
  · cases h
  · split at h
    · cases h
    · split at h <;> cases h
  · cases h

theorem Written.ofJson_eq {form : Form} {j : Json} {s : Schema} (h : Written form j s) :
    ofJson form j = .ok s := by
  cases h with
  | primitive h | literal h | shape h | arrayOf h | mapOf h | anyOf h | allOf h | refined h =>
    rw [ofJson, h, Except.map]
  | refinedItem hform h =>
    subst hform
    rw [ofJson, h, Except.map]

inductive WrittenField (form : Form) : Json → Field → Prop
  | members {members parts f} : fieldParts form {} members = .ok parts → parts.toField = .ok f →
    WrittenField form (.obj members) f
  | items {i j k name optional schema} : Json.toStr i = .ok name → Json.toBool j = .ok optional →
    ofJson form k = .ok schema → WrittenField form (.arr [i, j, k]) ⟨name, optional, schema⟩

theorem writtenField_of_fieldOfJson {form : Form} {j : Json} {f : Field}
    (h : fieldOfJson form j = .ok f) : WrittenField form j f := by
  unfold fieldOfJson at h
  split at h
  · obtain ⟨parts, hparts, h⟩ := Except.bind_eq_ok.1 h
    exact .members hparts h
  · cases h
  · obtain ⟨name, _, h⟩ := Except.bind_eq_ok.1 h
    cases h
  · obtain ⟨name, _, h⟩ := Except.bind_eq_ok.1 h
    obtain ⟨optional, _, h⟩ := Except.bind_eq_ok.1 h
    cases h
  · obtain ⟨name, hname, h⟩ := Except.bind_eq_ok.1 h
    obtain ⟨optional, hoptional, h⟩ := Except.bind_eq_ok.1 h
    obtain ⟨schema, hschema, h⟩ := Except.bind_eq_ok.1 h
    split at h
    · rename_i hrest
      cases h
      obtain rfl := List.isEmpty_iff.1 hrest
      exact .items hname hoptional hschema
    · cases h
  · cases h

theorem WrittenField.fieldOfJson_eq {form : Form} {j : Json} {f : Field}
    (h : WrittenField form j f) : fieldOfJson form j = .ok f := by
  cases h with
  | members hparts hf => exact Except.bind_eq_ok.2 ⟨_, hparts, hf⟩
  | items hname hoptional hschema =>
    exact Except.bind_eq_ok.2 ⟨_, hname, Except.bind_eq_ok.2 ⟨_, hoptional,
      Except.bind_eq_ok.2 ⟨_, hschema, rfl⟩⟩⟩

/-- Invariants of decoded schemas, which have neither predicates nor repeated names. -/
structure Loaded (s : Schema) : Prop where
  wellNamed : s.WellNamed
  predicateFree : s.PredicateFree

structure Loads (form : Form) (j : Json) : Prop where
  schema : ∀ {s}, ofJson form j = .ok s → s.Loaded
  field : ∀ {f}, fieldOfJson form j = .ok f → f.schema.Loaded

variable {form : Form}

theorem baseOfMembers_loaded {entries : List (String × Json)} {base : Schema}
    (h : ∀ p ∈ entries, Loads form p.2) (hread : baseOfMembers form entries = .ok base) :
    base.Loaded := by
  induction entries with
  | nil => cases hread
  | cons p rest ih =>
    obtain ⟨hp, hrest⟩ := List.forall_mem_cons.1 h
    rw [baseOfMembers] at hread
    split at hread
    · exact hp.schema hread
    · exact ih hrest hread

theorem fieldParts_loaded {entries : List (String × Json)} {parts result : FieldParts}
    (h : ∀ p ∈ entries, Loads form p.2) (hparts : ∀ s ∈ parts.schema, s.Loaded)
    (hread : fieldParts form parts entries = .ok result) : ∀ s ∈ result.schema, s.Loaded := by
  induction entries generalizing parts with
  | nil =>
    cases hread
    exact hparts
  | cons p rest ih =>
    obtain ⟨hp, hrest⟩ := List.forall_mem_cons.1 h
    obtain ⟨key, j⟩ := p
    unfold fieldParts at hread
    split at hread
    · obtain ⟨name, _, hread⟩ := Except.bind_eq_ok.1 hread
      exact ih hrest (by exact hparts) hread
    · obtain ⟨optional, _, hread⟩ := Except.bind_eq_ok.1 hread
      exact ih hrest (by exact hparts) hread
    · obtain ⟨schema, hschema, hread⟩ := Except.bind_eq_ok.1 hread
      refine ih hrest ?_ hread
      rintro _ ⟨⟩
      exact hp.schema hschema
    · exact ih hrest hparts hread

theorem schema_mem_of_toField {parts : FieldParts} {f : Field} (h : parts.toField = .ok f) :
    f.schema ∈ parts.schema := by
  unfold FieldParts.toField at h
  split at h
  · cases h
  · cases h
  · rename_i hschema
    cases h
    exact hschema

theorem fieldOfJson_loaded {j : Json} {f : Field} (h : ∀ k ∈ j.parts, Loads form k)
    (hread : fieldOfJson form j = .ok f) : f.schema.Loaded := by
  cases writtenField_of_fieldOfJson hread with
  | members hparts hf =>
    refine fieldParts_loaded (List.forall_mem_map.1 h) ?_ hparts _ (schema_mem_of_toField hf)
    rintro _ ⟨⟩
  | items _ _ hschema => exact (h _ (by simp [Json.parts])).schema hschema

theorem ofJson_loaded {j : Json} {s : Schema}
    (h : ∀ k ∈ j.parts, Loads form k ∧ ∀ l ∈ k.parts, Loads form l)
    (hread : ofJson form j = .ok s) : s.Loaded := by
  cases written_of_ofJson hread with
  | primitive => exact ⟨.primitive, .primitive⟩
  | literal => exact ⟨.literal, .literal⟩
  | @shape items fields hfields =>
    have hall := (h (.arr items) (by simp [Json.parts])).2
    rw [fieldsOfJson_eq_mapM] at hfields
    have hloaded := Except.forall_mem_of_mapM_eq_ok (P := fun f : Field => f.schema.Loaded)
      (fun k hk f => (hall k hk).field) hfields
    have hfield : ∀ f ∈ (Shape.ofList fields).fields, f.schema.Loaded :=
      fun f hf => hloaded f (Shape.mem_of_mem_ofList hf)
    exact ⟨wellNamed_shape _ fun f hf => (hfield f hf).wellNamed,
      .shape fun f hf => (hfield f hf).predicateFree⟩
  | @arrayOf k _ hitems =>
    have hloaded := (h k (by simp [Json.parts])).1.schema hitems
    exact ⟨.arrayOf hloaded.wellNamed, .arrayOf hloaded.predicateFree⟩
  | @mapOf k _ hvalues =>
    have hloaded := (h k (by simp [Json.parts])).1.schema hvalues
    exact ⟨.mapOf hloaded.wellNamed, .mapOf hloaded.predicateFree⟩
  | @anyOf items _ hvariants =>
    have hall := (h (.arr items) (by simp [Json.parts])).2
    rw [listOfJson_eq_mapM] at hvariants
    have hloaded := Except.forall_mem_of_mapM_eq_ok (fun k hk s => (hall k hk).schema) hvariants
    exact ⟨.anyOf fun s hs => (hloaded s hs).wellNamed,
      .anyOf fun s hs => (hloaded s hs).predicateFree⟩
  | @allOf items _ hmembers =>
    have hall := (h (.arr items) (by simp [Json.parts])).2
    rw [listOfJson_eq_mapM] at hmembers
    have hloaded := Except.forall_mem_of_mapM_eq_ok (fun k hk s => (hall k hk).schema) hmembers
    exact ⟨.allOf fun s hs => (hloaded s hs).wellNamed,
      .allOf fun s hs => (hloaded s hs).predicateFree⟩
  | @refined entries _ hbase =>
    have hall := (h (.obj entries) (by simp [Json.parts])).2
    have hloaded := baseOfMembers_loaded (List.forall_mem_map.1 hall) hbase
    exact ⟨.refined hloaded.wellNamed, .refined hloaded.predicateFree⟩
  | @refinedItem k _ _ hbase =>
    have hloaded := ((h (.arr [k]) (by simp [Json.parts])).2 k (by simp [Json.parts])).schema hbase
    exact ⟨.refined hloaded.wellNamed, .refined hloaded.predicateFree⟩

theorem loads (form : Form) (j : Json) : Loads form j := by
  suffices h : Loads form j ∧ ∀ k ∈ j.parts, Loads form k from h.1
  induction j using Json.partsInduction with
  | step j ih =>
    have hparts : ∀ k ∈ j.parts, Loads form k := fun k hk => (ih k hk).1
    exact ⟨⟨ofJson_loaded ih, fieldOfJson_loaded hparts⟩, hparts⟩

theorem Loaded.ofJson_toJson {s : Schema} (h : s.Loaded) (form : Form) :
    ofJson form s.toJson = .ok s := by
  rw [h.wellNamed.ofJson_toJson, h.predicateFree.bare_eq]

/-- Decoding inverts encoding up to predicates exactly if names are distinct in every shape. What
was decoded satisfies this, so encoding it settles on one spelling. -/
theorem ofJson_undoes_toJson (form : Form) :
    (∀ s : Schema, ofJson form s.toJson = .ok s.bare ↔ s.WellNamed) ∧
      (∀ fields : List Field, (∀ f ∈ fields, f.schema.WellNamed) →
        (Schema.shape (Shape.ofList fields).fields).WellNamed) ∧
      (∀ (found : Form) (j : Json) (s : Schema), ofJson found j = .ok s →
        ofJson form s.toJson = .ok s) ∧
      ∀ (found : Form) (j k : Json), (ofJson found j).map toJson = .ok k →
        (ofJson form k).map toJson = .ok k := by
  refine ⟨fun s => ⟨fun h => ?_, fun h => h.ofJson_toJson form⟩,
    fun fields h => ?_, fun found j s h => ?_, fun found j k h => ?_⟩
  · exact wellNamed_of_bare ((loads form s.toJson).schema h).wellNamed
  · exact wellNamed_shape _ fun f hf => h f (Shape.mem_of_mem_ofList hf)
  · exact ((loads found j).schema h).ofJson_toJson form
  · obtain ⟨s, hs, rfl⟩ := Except.map_eq_ok.1 h
    rw [((loads found j).schema hs).ofJson_toJson form]
    rfl

theorem ofJson_undoes_toJson_repeated_name :
    let j : Json := .obj [("shape", .arr [
      .arr [.str "id", .bool true, .obj [("primitive", .obj [("null", .null)])]],
      .obj [("name", .str "id"), ("note", .null), ("schema", .obj [("any_of", .arr [])])]])]
    let s : Schema := .shape [⟨"id", false, .anyOf []⟩]
    ofJson .slot j = .ok s ∧ ofJson .plain s.toJson = .ok s := by
  intro j s
  have h : ofJson .slot j = .ok s := by rfl
  exact ⟨h, (ofJson_undoes_toJson .plain).2.2.1 .slot j s h⟩

end ApiContract.Schema
