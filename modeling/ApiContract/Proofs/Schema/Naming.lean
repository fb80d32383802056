import ApiContract.Schema.Basic

namespace ApiContract

theorem Field.mem_of_mem_put {field f : Field} {fields : List Field} (h : f ∈ field.put fields) :
    f = field ∨ f ∈ fields := by
  induction fields with
  | nil => exact .inl (List.mem_singleton.1 h)
  | cons g rest ih =>
    rw [put] at h
    split at h
    · exact (List.mem_cons.1 h).imp_right (List.mem_cons_of_mem _)
    · rcases List.mem_cons.1 h with rfl | h
      · exact .inr List.mem_cons_self
      · exact (ih h).imp_right (List.mem_cons_of_mem _)

namespace Shape

variable {fields : List Field}

theorem mem_of_mem_ofList {f : Field} (h : f ∈ (ofList fields).fields) : f ∈ fields := by
  suffices hfold : ∀ shape : Shape, f ∈ (fields.foldl insert shape).fields →
      f ∈ shape.fields ∨ f ∈ fields from (hfold empty h).resolve_left List.not_mem_nil
  clear h
  induction fields with
  | nil => exact fun shape h => .inl h
  | cons g rest ih =>
    intro shape h
    rcases ih _ h with h | h
    · rcases Field.mem_of_mem_put h with rfl | h
      · exact .inr List.mem_cons_self
      · exact .inl h
    · exact .inr (List.mem_cons_of_mem _ h)

theorem ofList_of_nodup (h : (Field.names fields).Nodup) : ofList fields = ⟨fields, h⟩ := by
  suffices hfold : ∀ shape : Shape, (Field.names (shape.fields ++ fields)).Nodup →
      (fields.foldl insert shape).fields = shape.fields ++ fields from Shape.ext (hfold empty h)
  clear h
  induction fields with
  | nil => exact fun shape _ => (List.append_nil shape.fields).symm
  | cons f rest ih =>
    intro shape h
    -- no field before it has its name, so it is put at the end
    have hnew : f.name ∉ Field.names shape.fields := by
      rw [Field.names_append, Field.names_cons] at h
      exact fun hmem => (List.nodup_append.1 h).2.2 _ hmem _ List.mem_cons_self rfl
    rw [List.foldl_cons, ih, Shape.insert_fields, Field.put_of_not_mem hnew, List.append_assoc,
      List.singleton_append]
    simpa [Field.put_of_not_mem hnew] using h

theorem ofList_fields (shape : Shape) : ofList shape.fields = shape :=
  ofList_of_nodup shape.nodup

end Shape

namespace Schema

/-- Names are distinct in every shape, at any depth. -/
inductive WellNamed : Schema → Prop
  | primitive {kind} : WellNamed (.primitive kind)
  | literal {value} : WellNamed (.literal value)
  | shape {fields} : (Field.names fields).Nodup → (∀ f ∈ fields, WellNamed f.schema) →
    WellNamed (.shape fields)
  | arrayOf {items} : WellNamed items → WellNamed (.arrayOf items)
  | mapOf {values} : WellNamed values → WellNamed (.mapOf values)
  | anyOf {variants} : (∀ s ∈ variants, WellNamed s) → WellNamed (.anyOf variants)
  | allOf {members} : (∀ s ∈ members, WellNamed s) → WellNamed (.allOf members)
  | refined {base predicate} : WellNamed base → WellNamed (.refined base predicate)

theorem wellNamed_shape (shape : Shape) (h : ∀ f ∈ shape.fields, f.schema.WellNamed) :
    (Schema.shape shape.fields).WellNamed :=
  .shape shape.nodup h

end Schema

end ApiContract
