import ApiContract.Boundary
import ApiContract.Endpoint.Wire
import ApiContract.Proofs.Schema.Wire

namespace ApiContract

namespace Payload

def bare : Payload → Payload
  | .typed s => .typed s.bare
  | p => p

theorem ofJson_toJson {p : Payload} (h : ∀ s ∈ p.schema?, s.WellNamed) :
    ofJson p.toJson = .ok (some p.bare) := by
  cases p with
  | absent => rfl
  | untyped => rfl
  | typed s =>
    have hread := (h s rfl).ofJson_toJson .slot
    rw [toJson, ofJson, hread, bare]
    all_goals cases s <;> nofun

def Loaded (p : Payload) : Prop :=
  ∀ s ∈ p.schema?, s.Loaded

theorem loaded_of_ofJson {j : Json} {p : Payload} (h : ofJson j = .ok (some p)) : p.Loaded := by
  unfold ofJson at h
  split at h
  · cases h
  · cases h
    nofun
  · cases h
    nofun
  · split at h
    · rename_i s hs
      cases h
      rintro _ ⟨⟩
      exact (Schema.loads .slot j).schema hs
    · cases h

theorem loaded_getD {slot : Option Payload} {default : Payload} (h : ∀ p ∈ slot, p.Loaded)
    (hdefault : default.Loaded) : (slot.getD default).Loaded := by
  cases slot with
  | none => exact hdefault
  | some p => exact h p rfl

theorem loaded_absent : absent.Loaded :=
  nofun

theorem loaded_defaultBody (method : Method) : (defaultBody method).Loaded := by
  unfold defaultBody
  split <;> nofun

theorem schema?_bare (p : Payload) : p.bare.schema? = p.schema?.map Schema.bare := by
  cases p <;> rfl

theorem bare_eq {p : Payload} (h : ∀ s ∈ p.schema?, s.PredicateFree) : p.bare = p := by
  cases p with
  | absent => rfl
  | untyped => rfl
  | typed s => rw [bare, (h s rfl).bare_eq]

theorem check_eq_ok_iff {p : Payload} {part : BoundaryPart} {mode : Mode} {v : Json} :
    p.check part mode v = .ok () ↔ ∀ s ∈ p.schema?, Schema.Accepts mode s v := by
  cases p with
  | absent => simp [check, schema?]
  | untyped => simp [check, schema?]
  | typed s =>
    simp only [check, schema?, Option.mem_some_iff, forall_eq', ← Schema.validate_eq_ok]
    cases s.validate mode v <;> simp [Except.mapError]

theorem check_bare {p : Payload} {part : BoundaryPart} {mode : Mode} {v : Json}
    (h : p.check part mode v = .ok ()) : p.bare.check part mode v = .ok () := by
  rw [check_eq_ok_iff] at h ⊢
  cases p with
  | absent => exact h
  | untyped => exact h
  | typed s =>
    rintro _ ⟨⟩
    exact (h s rfl).bare

end Payload

namespace Endpoint

def bare (e : Endpoint) : Endpoint :=
  { e with body := e.body.bare, query := e.query.bare, response := e.response.bare }

def schemas (e : Endpoint) : List Schema :=
  [e.body, e.query, e.response].filterMap Payload.schema?

def StoredAs (e : Endpoint) (j : Json) : Prop :=
  ∃ written members, e.toJson = .obj written ∧ members.Perm written ∧ j = .obj members

variable {e : Endpoint}

def partsOf (e : Endpoint) (keys : List String) : Parts where
  name := if "name" ∈ keys then some e.name else none
  method := if "method" ∈ keys then some e.method else none
  path := if "path" ∈ keys then some e.path else none
  body := if "body" ∈ keys then some e.body.bare else none
  query := if "query" ∈ keys then some e.query.bare else none
  response := if "response" ∈ keys then some e.response.bare else none

theorem forall_schemas_iff {P : Schema → Prop} : (∀ s ∈ e.schemas, P s) ↔
    (∀ s ∈ e.body.schema?, P s) ∧ (∀ s ∈ e.query.schema?, P s) ∧ ∀ s ∈ e.response.schema?, P s := by
  simp [schemas, or_imp, forall_and]

theorem add_partsOf (h : ∀ s ∈ e.schemas, s.WellNamed) {written : List (String × Json)}
    (hwritten : e.toJson = .obj written) {p : String × Json} (hp : p ∈ written)
    (keys : List String) : (e.partsOf keys).add p.1 p.2 = .ok (e.partsOf (p.1 :: keys)) := by
  obtain ⟨hbody, hquery, hresponse⟩ := forall_schemas_iff.1 h
  obtain rfl := Json.obj.inj hwritten
  have hmethod : Method.ofJson e.method.toJson = .ok e.method := by
    rw [Method.toJson, Method.ofJson, Json.toAlternative, Method.ofName?_name]
  simp only [List.mem_cons, List.not_mem_nil, or_false] at hp
  rcases hp with rfl | rfl | rfl | rfl | rfl | rfl <;>
    simp [Parts.add, partsOf, Json.toStr, hmethod, Payload.ofJson_toJson hbody,
      Payload.ofJson_toJson hquery, Payload.ofJson_toJson hresponse, Functor.map, Except.map]

theorem addAll_partsOf (h : ∀ s ∈ e.schemas, s.WellNamed) {written members : List (String × Json)}
    (hwritten : e.toJson = .obj written) (hmembers : ∀ p ∈ members, p ∈ written)
    (keys : List String) :
    (e.partsOf keys).addAll members =
      .ok (e.partsOf ((members.map (·.1)).reverse ++ keys)) := by
  induction members generalizing keys with
  | nil => rfl
  | cons p rest ih =>
    obtain ⟨hp, hrest⟩ := List.forall_mem_cons.1 hmembers
    rw [Parts.addAll, List.foldlM_cons]
    refine Except.bind_eq_ok.2 ⟨_, add_partsOf h hwritten hp keys, ?_⟩
    rw [← Parts.addAll, ih hrest, List.map_cons, List.reverse_cons, List.append_assoc,
      List.singleton_append]

theorem toEndpoint_partsOf {keys : List String} (h : ∀ key ∈ fieldNames, key ∈ keys) :
    (e.partsOf keys).toEndpoint = .ok e.bare := by
  simp only [fieldNames, List.forall_mem_cons] at h
  obtain ⟨hname, hmethod, hpath, hbody, hquery, hresponse, -⟩ := h
  simp [partsOf, Parts.toEndpoint, bare, hname, hmethod, hpath, hbody, hquery, hresponse]

theorem StoredAs.ofJson {j : Json} (h : ∀ s ∈ e.schemas, s.WellNamed) (hstored : e.StoredAs j) :
    Endpoint.ofJson j = .ok e.bare := by
  obtain ⟨written, members, hwritten, hperm, rfl⟩ := hstored
  have hread := addAll_partsOf h hwritten (fun p => hperm.mem_iff.1) []
  have hnone : e.partsOf [] = {} := rfl
  rw [hnone, List.append_nil] at hread
  have hkeys : ∀ key ∈ fieldNames, key ∈ (members.map (·.1)).reverse := by
    intro key hkey
    rw [List.mem_reverse, (hperm.map _).mem_iff]
    obtain rfl := Json.obj.inj hwritten
    exact hkey
  exact Except.bind_eq_ok.2 ⟨_, hread, toEndpoint_partsOf hkeys⟩

structure Parts.Loaded (p : Parts) : Prop where
  body : ∀ payload ∈ p.body, payload.Loaded
  query : ∀ payload ∈ p.query, payload.Loaded
  response : ∀ payload ∈ p.response, payload.Loaded

theorem Parts.Loaded.add {p q : Parts} {key : String} {j : Json} (h : p.Loaded)
    (hread : p.add key j = .ok q) : q.Loaded := by
  have hslot {slot : Option Payload} (hslot : Payload.ofJson j = .ok slot) :
      ∀ payload ∈ slot, payload.Loaded := by
    rintro payload rfl
    exact Payload.loaded_of_ofJson hslot
  unfold Parts.add at hread
  split at hread
  iterate 3
    · obtain ⟨_, -, ⟨⟩⟩ := Except.bind_eq_ok.1 hread
      exact ⟨h.body, h.query, h.response⟩
  · obtain ⟨_, hbody, ⟨⟩⟩ := Except.bind_eq_ok.1 hread
    exact ⟨hslot hbody, h.query, h.response⟩
  · obtain ⟨_, hquery, ⟨⟩⟩ := Except.bind_eq_ok.1 hread
    exact ⟨h.body, hslot hquery, h.response⟩
  · obtain ⟨_, hresponse, ⟨⟩⟩ := Except.bind_eq_ok.1 hread
    exact ⟨h.body, h.query, hslot hresponse⟩
  · cases hread

theorem Parts.Loaded.addAll {p q : Parts} {members : List (String × Json)} (h : p.Loaded)
    (hread : p.addAll members = .ok q) : q.Loaded := by
  induction members generalizing p with
  | nil =>
    cases hread
    exact h
  | cons member rest ih =>
    rw [Parts.addAll, List.foldlM_cons] at hread
    obtain ⟨next, hnext, hrest⟩ := Except.bind_eq_ok.1 hread
    exact ih (h.add hnext) hrest

theorem Parts.Loaded.toEndpoint {p : Parts} (h : p.Loaded) (hread : p.toEndpoint = .ok e) :
    ∀ s ∈ e.schemas, s.Loaded := by
  unfold Parts.toEndpoint at hread
  split at hread
  · cases hread
  · cases hread
  · cases hread
  · cases hread
    exact forall_schemas_iff.2 ⟨Payload.loaded_getD h.body (Payload.loaded_defaultBody _),
      Payload.loaded_getD h.query Payload.loaded_absent,
      Payload.loaded_getD h.response Payload.loaded_absent⟩

theorem loaded_of_ofJson {j : Json} (h : ofJson j = .ok e) : ∀ s ∈ e.schemas, s.Loaded := by
  have hnone : Parts.Loaded {} := ⟨nofun, nofun, nofun⟩
  unfold ofJson at h
  split at h
  · obtain ⟨parts, hparts, h⟩ := Except.bind_eq_ok.1 h
    exact (hnone.addAll hparts).toEndpoint h
  · obtain ⟨parts, hparts, h⟩ := Except.bind_eq_ok.1 h
    split at h
    · cases h
    · split at h
      · cases h
      · exact (hnone.addAll hparts).toEndpoint h
  · cases h

theorem schemas_bare (e : Endpoint) : e.bare.schemas = e.schemas.map Schema.bare := by
  have hbare : [e.bare.body, e.bare.query, e.bare.response] =
      [e.body, e.query, e.response].map Payload.bare := rfl
  rw [schemas, schemas, hbare, List.filterMap_map, List.map_filterMap]
  congr 1
  funext p
  exact p.schema?_bare

theorem wellNamed_of_ofJson {j : Json} (h : ofJson j = .ok e.bare) :
    ∀ s ∈ e.schemas, s.WellNamed := by
  have hloaded := loaded_of_ofJson h
  rw [schemas_bare, List.forall_mem_map] at hloaded
  exact fun s hs => Schema.wellNamed_of_bare (hloaded s hs).wellNamed

theorem bare_eq (h : ∀ s ∈ e.schemas, s.PredicateFree) : e.bare = e := by
  obtain ⟨hbody, hquery, hresponse⟩ := forall_schemas_iff.1 h
  rw [bare, Payload.bare_eq hbody, Payload.bare_eq hquery, Payload.bare_eq hresponse]

theorem storedAs_toJson (e : Endpoint) : e.StoredAs e.toJson :=
  ⟨_, _, rfl, .refl _, rfl⟩

theorem ofJson_toJson_of_ofJson {j : Json} (h : ofJson j = .ok e) : ofJson e.toJson = .ok e := by
  have hloaded := loaded_of_ofJson h
  rw [(storedAs_toJson e).ofJson fun s hs => (hloaded s hs).wellNamed,
    bare_eq fun s hs => (hloaded s hs).predicateFree]

theorem checkRequest_bare {mode : Mode} {body query : Json}
    (h : e.checkRequest mode body query = .ok ()) :
    e.bare.checkRequest mode body query = .ok () := by
  obtain ⟨_, hbody, hquery⟩ := Except.bind_eq_ok.1 h
  exact Except.bind_eq_ok.2 ⟨(), Payload.check_bare hbody, Payload.check_bare hquery⟩

/-- An endpoint whose shapes have distinct names, as every endpoint that was read has, is reloaded
without predicates and otherwise unchanged; an absent body stays absent. It accepts what it
accepted, and without predicates every check has the same result. -/
theorem reloading_keeps_boundary (e : Endpoint) :
    e.StoredAs e.toJson ∧
      ((∀ j, e.StoredAs j → ofJson j = .ok e.bare) ↔ ∀ s ∈ e.schemas, s.WellNamed) ∧
      (∀ j, ofJson j = .ok e → ofJson e.toJson = .ok e) ∧
      (∀ mode body query, e.checkRequest mode body query = .ok () →
        e.bare.checkRequest mode body query = .ok ()) ∧
      (∀ mode response, e.checkResponse mode response = .ok () →
        e.bare.checkResponse mode response = .ok ()) ∧
      ((∀ s ∈ e.schemas, s.PredicateFree) →
        (∀ mode body query,
          e.bare.checkRequest mode body query = e.checkRequest mode body query) ∧
        ∀ mode response, e.bare.checkResponse mode response = e.checkResponse mode response) := by
  refine ⟨storedAs_toJson e, ⟨fun h => ?_, fun h j => StoredAs.ofJson h⟩, fun j => ?_,
    fun mode body query => checkRequest_bare, fun mode response => Payload.check_bare,
    fun hfree => ?_⟩
  · exact wellNamed_of_ofJson (h e.toJson (storedAs_toJson e))
  · exact ofJson_toJson_of_ofJson
  · rw [bare_eq hfree]
    exact ⟨fun _ _ _ => rfl, fun _ _ => rfl⟩

theorem reloading_keeps_boundary_without_body :
    let e : Endpoint :=
      { name := "remove", method := .post, path := "/:id", body := .absent,
        response := .typed (.refined .string (some ⟨"", fun _ => .reject⟩)) }
    (∀ s ∈ e.schemas, s.WellNamed) ∧
      ofJson e.toJson =
        .ok ⟨"remove", .post, "/:id", .absent, .absent, .typed (.refined .string none)⟩ := by
  intro e
  have h : ∀ s ∈ e.schemas, s.WellNamed := by
    intro s hs
    rw [List.mem_singleton.1 hs]
    exact .refined .primitive
  obtain ⟨hstored, hread, -⟩ := reloading_keeps_boundary e
  exact ⟨h, hread.2 h _ hstored⟩

end Endpoint

end ApiContract
