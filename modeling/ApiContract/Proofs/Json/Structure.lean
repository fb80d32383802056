import ApiContract.Json.Basic

namespace ApiContract.Json

def parts : Json → List Json
  | .arr items => items
  | .obj members => members.map (·.2)
  | _ => []

@[elab_as_elim]
theorem partsInduction {motive : Json → Prop}
    (step : ∀ j, (∀ k ∈ j.parts, motive k) → motive j) (j : Json) : motive j :=
  @Json.rec motive (fun items => ∀ k ∈ items, motive k) (fun members => ∀ p ∈ members, motive p.2)
    (fun p => motive p.2) (step _ (List.forall_mem_nil _)) (fun _ => step _ (List.forall_mem_nil _))
    (fun _ => step _ (List.forall_mem_nil _)) (fun _ => step _ (List.forall_mem_nil _))
    (fun _ h => step _ h) (fun _ h => step _ (List.forall_mem_map.2 h)) (List.forall_mem_nil _)
    (fun _ _ h hs => List.forall_mem_cons.2 ⟨h, hs⟩) (List.forall_mem_nil _)
    (fun _ _ h hs => List.forall_mem_cons.2 ⟨h, hs⟩) (fun _ _ h => h) j

end ApiContract.Json
