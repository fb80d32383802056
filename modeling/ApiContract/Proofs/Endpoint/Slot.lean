import ApiContract.Endpoint.Wire
import ApiContract.Proofs.Schema.Spelling

namespace ApiContract

theorem Payload.ofJson_eq_typed_iff {j : Json} {s : Schema} :
    Payload.ofJson j = .ok (some (.typed s)) ↔ Schema.ofJson .slot j = .ok s := by
  unfold Payload.ofJson
  split
  · exact ⟨nofun, nofun⟩
  · exact ⟨nofun, nofun⟩
  · exact ⟨nofun, nofun⟩
  · cases Schema.ofJson .slot j <;> simp

namespace Endpoint

inductive Slot where
  | body
  | query
  | response

namespace Slot

def key : Slot → String
  | .body => "body"
  | .query => "query"
  | .response => "response"

def index (slot : Slot) : Nat :=
  fieldNames.idxOf slot.key

def of : Slot → Endpoint → Payload
  | .body, e => e.body
  | .query, e => e.query
  | .response, e => e.response

def set : Slot → Payload → Endpoint → Endpoint
  | .body, p, e => { e with body := p }
  | .query, p, e => { e with query := p }
  | .response, p, e => { e with response := p }

/-- Encoded endpoints with a hole for one slot. No later member has the key of the slot, as it would
override it. -/
inductive Places (slot : Slot) : (Json → Json) → Prop
  | member {before after} : slot.key ∉ after.map (·.1) →
    Places slot fun j => .obj (before ++ (slot.key, j) :: after)
  | item {before after} : before.length = slot.index →
    Places slot fun j => .arr (before ++ j :: after)

def put : Slot → Option Payload → Parts → Parts
  | .body, q, p => { p with body := q }
  | .query, q, p => { p with query := q }
  | .response, q, p => { p with response := q }

def fill (slot : Slot) (q : Option Payload) (e : Endpoint) : Endpoint :=
  q.elim e (slot.set · e)

variable {slot : Slot} {p : Parts} {q : Option Payload} {key : String} {j : Json}

theorem add_key : p.add slot.key j = (Payload.ofJson j).map (slot.put · p) := by
  cases slot <;> cases h : Payload.ofJson j <;> simp [Parts.add, Slot.key, put, Except.map, h]

theorem add_put (h : key ≠ slot.key) :
    (slot.put q p).add key j = (p.add key j).map (slot.put q) := by
  unfold Parts.add
  split
  · cases j.toStr <;> cases slot <;> rfl
  · cases Method.ofJson j <;> cases slot <;> rfl
  · cases j.toStr <;> cases slot <;> rfl
  · cases slot with
    | body => exact absurd rfl h
    | query | response => cases Payload.ofJson j <;> rfl
  · cases slot with
    | query => exact absurd rfl h
    | body | response => cases Payload.ofJson j <;> rfl
  · cases slot with
    | response => exact absurd rfl h
    | body | query => cases Payload.ofJson j <;> rfl
  · rfl

theorem addAll_put {members : List (String × Json)} (h : slot.key ∉ members.map (·.1)) :
    (slot.put q p).addAll members = (p.addAll members).map (slot.put q) := by
  induction members generalizing p with
  | nil => rfl
  | cons member rest ih =>
    rw [List.map_cons, List.mem_cons, not_or] at h
    rw [Parts.addAll, Parts.addAll, List.foldlM_cons, List.foldlM_cons, add_put (Ne.symm h.1)]
    cases p.add member.1 member.2 with
    | error e => rfl
    | ok next => exact ih h.2

theorem addAll_slot {before after : List (String × Json)} (h : slot.key ∉ after.map (·.1)) :
    p.addAll (before ++ (slot.key, j) :: after) =
      (p.addAll before >>= fun met => Payload.ofJson j >>= fun q =>
        (met.addAll after).map (slot.put q)) := by
  -- the slot is read between the other members, and its part does not depend on theirs
  rw [Parts.addAll, List.foldlM_append]
  congr
  funext met
  rw [List.foldlM_cons, add_key]
  cases Payload.ofJson j with
  | error e => rfl
  | ok q => exact addAll_put h

structure Finishes (slot : Slot) (finish : Parts → Decoded Endpoint) : Prop where
  put : ∀ q p, finish (slot.put q p) = (finish (slot.put none p)).map (slot.fill q)
  left_out : ∀ p e, finish (slot.put none p) = .ok e → (slot.of e).schema? = none

theorem finishes_toEndpoint (slot : Slot) : slot.Finishes Parts.toEndpoint where
  put q p := by
    obtain ⟨name, method, path, _, _, _⟩ := p
    cases slot <;> cases name <;> cases method <;> cases path <;> cases q <;> rfl
  left_out p e h := by
    have hdefault (method : Method) : (Payload.defaultBody method).schema? = none := by
      unfold Payload.defaultBody
      split <;> rfl
    unfold Parts.toEndpoint at h
    split at h
    · cases h
    · cases h
    · cases h
    · cases h
      cases slot with
      | body => exact hdefault _
      | query | response => rfl

theorem Finishes.guard {finish : Parts → Decoded Endpoint} (h : slot.Finishes finish) (c : Prop)
    [Decidable c] (e : DecodeError) :
    slot.Finishes fun p => if c then .error e else finish p := by
  by_cases hc : c
  · simp only [if_pos hc]
    exact ⟨fun _ _ => rfl, fun _ _ he => by cases he⟩
  · simp only [if_neg hc]
    exact h

theorem zip_fieldNames {before after : List Json} (h : before.length = slot.index) (j : Json) :
    fieldNames.zip (before ++ j :: after) = (fieldNames.take slot.index).zip before ++
      (slot.key, j) :: (fieldNames.drop (slot.index + 1)).zip after := by
  have hnames : fieldNames =
      fieldNames.take slot.index ++ slot.key :: fieldNames.drop (slot.index + 1) := by
    cases slot <;> rfl
  have hlength : (fieldNames.take slot.index).length = before.length := by
    rw [h]
    cases slot <;> rfl
  conv_lhs => rw [hnames]
  rw [List.zip_append hlength, List.zip_cons_cons]

theorem Places.exists_reading {d : Json → Json} (h : slot.Places d) :
    ∃ before after finish, slot.key ∉ List.map (·.1) after ∧ slot.Finishes finish ∧
      ∀ j, ofJson (d j) = Parts.addAll {} (before ++ (slot.key, j) :: after) >>= finish := by
  cases h with
  | @member before after hafter =>
    exact ⟨before, after, Parts.toEndpoint, hafter, finishes_toEndpoint slot, fun _ => rfl⟩
  | @item before after hbefore =>
    let length := before.length + (after.length + 1)
    have hlength := ((finishes_toEndpoint slot).guard (length > fieldNames.length)
      (.invalidLength length "fewer elements in array")).guard (length < 3)
        (.invalidLength length "struct EndpointRepr with 6 elements")
    refine ⟨(fieldNames.take slot.index).zip before, (fieldNames.drop (slot.index + 1)).zip after,
      _, ?_, hlength, fun j => ?_⟩
    · have hlater : slot.key ∉ fieldNames.drop (slot.index + 1) := by cases slot <;> decide
      intro hkey
      obtain ⟨member, hmember, hkey⟩ := List.mem_map.1 hkey
      exact hlater (hkey ▸ (List.of_mem_zip hmember).1)
    · simp only [ofJson, zip_fieldNames hbefore, List.length_append, List.length_cons, Json.tooLong]
      rfl

variable {d : Json → Json}

theorem Places.ofJson_eq (h : slot.Places d) (hq : Payload.ofJson j = .ok q) :
    ofJson (d j) = (ofJson (d .null)).map (slot.fill q) := by
  obtain ⟨before, after, finish, hafter, hfinish, hd⟩ := h.exists_reading
  rw [hd, hd, addAll_slot hafter, addAll_slot hafter, hq, Payload.ofJson]
  cases Parts.addAll {} before with
  | error e => rfl
  | ok met =>
    change (met.addAll after).map (slot.put q) >>= finish =
      ((met.addAll after).map (slot.put none) >>= finish).map (slot.fill q)
    cases met.addAll after with
    | error e => rfl
    | ok p => exact hfinish.put q p

theorem Places.exists_payload (h : slot.Places d) {e : Endpoint} (he : ofJson (d j) = .ok e) :
    ∃ q, Payload.ofJson j = .ok q := by
  obtain ⟨before, after, finish, hafter, -, hd⟩ := h.exists_reading
  rw [hd, addAll_slot hafter] at he
  obtain ⟨p, hp, -⟩ := Except.bind_eq_ok.1 he
  obtain ⟨met, -, hq⟩ := Except.bind_eq_ok.1 hp
  obtain ⟨q, hq, -⟩ := Except.bind_eq_ok.1 hq
  exact ⟨q, hq⟩

theorem Places.left_out (h : slot.Places d) {e : Endpoint} (he : ofJson (d .null) = .ok e) :
    (slot.of e).schema? = none := by
  obtain ⟨before, after, finish, hafter, hfinish, hd⟩ := h.exists_reading
  rw [hd, addAll_slot hafter, Payload.ofJson] at he
  obtain ⟨p, hp, he⟩ := Except.bind_eq_ok.1 he
  obtain ⟨met, -, hp⟩ := Except.bind_eq_ok.1 hp
  obtain ⟨q, ⟨⟩, hp⟩ := Except.bind_eq_ok.1 hp
  obtain ⟨rest, -, rfl⟩ := Except.map_eq_ok.1 hp
  exact hfinish.left_out rest e he

theorem Places.payload_of_typed (h : slot.Places d) {e : Endpoint} {s : Schema}
    (he : ofJson (d j) = .ok e) (hs : slot.of e = .typed s) :
    Payload.ofJson j = .ok (some (.typed s)) := by
  obtain ⟨q, hq⟩ := h.exists_payload he
  rw [h.ofJson_eq hq] at he
  obtain ⟨e, hrest, rfl⟩ := Except.map_eq_ok.1 he
  cases q with
  | none =>
    have hnone := h.left_out hrest
    rw [fill, Option.elim] at hs
    rw [hs] at hnone
    cases hnone
  | some payload =>
    have hpayload : slot.of (slot.set payload e) = payload := by cases slot <;> rfl
    rw [hq, ← hs]
    exact congrArg (fun p => Except.ok (some p)) hpayload.symm

end Slot

/-- A schema means the same in a slot as alone, and the rest of the endpoint is read as if the slot
were left out. Whatever else a slot takes for a schema has a refinement as an array somewhere, and
means the same everywhere once those are objects. -/
theorem slot_extends_schema {slot : Slot} {d : Json → Json} (hd : slot.Places d) (j : Json) :
    (∀ s, Schema.ofJson .plain j = .ok s →
        Payload.ofJson j = .ok (some (.typed s)) ∧
          ofJson (d j) = (ofJson (d .null)).map (slot.set (.typed s))) ∧
      ∀ e s, ofJson (d j) = .ok e → slot.of e = .typed s →
        Schema.ofJson .plain (Schema.objectForm j) = .ok s ∧
          ((∀ t, Schema.ofJson .plain j ≠ .ok t) →
            ∃ base, Schema.SchemaAt j (.obj [("refined", .arr [base])])) := by
  refine ⟨fun s hs => ?_, fun e s he hs => ?_⟩
  · have hslot : Schema.ofJson .slot j = .ok s := Schema.ofJson_of_objects hs nofun .slot
    have hpayload := Payload.ofJson_eq_typed_iff.2 hslot
    exact ⟨hpayload, hd.ofJson_eq hpayload⟩
  · have hslot := Payload.ofJson_eq_typed_iff.1 (hd.payload_of_typed he hs)
    refine ⟨Schema.ofJson_objectForm hslot .plain, fun hplain => ?_⟩
    by_contra hobjects
    exact hplain s (Schema.ofJson_of_objects hslot (fun _ => not_exists.1 hobjects) .plain)

theorem slot_extends_schema_twice_refined :
    let d : Json → Json := fun j =>
      .obj ([("name", .str "list"), ("method", .str "get"), ("path", .str "/")] ++
        (Slot.query.key, j) :: [("response", .bool true)])
    let j : Json := .obj [("map_of", .obj [("refined", .arr [
      .obj [("any_of", .arr [.obj [("refined", .arr [.obj [("primitive", .str "string")]])]])]])])]
    let s : Schema := .mapOf (.refined (.anyOf [.refined .string none]) none)
    Slot.query.Places d ∧
      ofJson (d j) = .ok ⟨"list", .get, "/", .absent, .typed s, .untyped⟩ ∧
      Schema.ofJson .plain (Schema.objectForm j) = .ok s ∧
      ∃ base, Schema.SchemaAt j (.obj [("refined", .arr [base])]) := by
  intro d j s
  have hd : Slot.query.Places d := .member (by decide)
  have he : ofJson (d j) = .ok ⟨"list", .get, "/", .absent, .typed s, .untyped⟩ := by rfl
  have hplain : ∀ t, Schema.ofJson .plain j ≠ .ok t := by
    intro t ht
    cases ht
  obtain ⟨hobjects, hitem⟩ := (slot_extends_schema hd j).2 _ s he rfl
  exact ⟨hd, he, hobjects, hitem hplain⟩

end Endpoint

end ApiContract
