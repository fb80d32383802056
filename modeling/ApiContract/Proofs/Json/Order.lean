import ApiContract.Json.Basic
import Mathlib

namespace ApiContract.Json

def Ascending (entries : List (String × Json)) : Prop :=
  entries.Pairwise fun p q => p.1 < q.1

theorem mem_insertMember {key : String} {value : Json} {entries : List (String × Json)}
    {p : String × Json} (h : p ∈ insertMember key value entries) :
    p = (key, value) ∨ p ∈ entries := by
  induction entries with
  | nil => exact .inl (List.mem_singleton.1 h)
  | cons q rest ih =>
    rw [insertMember] at h
    split at h
    · exact List.mem_cons.1 h
    · split at h
      · exact (List.mem_cons.1 h).imp_right (List.mem_cons_of_mem q)
      · rcases List.mem_cons.1 h with rfl | h
        · exact .inr List.mem_cons_self
        · exact (ih h).imp_right (List.mem_cons_of_mem q)

theorem Ascending.insertMember {entries : List (String × Json)} (h : Ascending entries)
    (key : String) (value : Json) : Ascending (insertMember key value entries) := by
  induction entries with
  | nil => exact List.pairwise_singleton _ _
  | cons q rest ih =>
    obtain ⟨hq, hrest⟩ := List.pairwise_cons.1 h
    rw [Json.insertMember]
    split
    · rename_i hlt
      refine List.pairwise_cons.2 ⟨List.forall_mem_cons.2 ⟨hlt, ?_⟩, h⟩
      exact fun p hp => hlt.trans (hq p hp)
    · rename_i hnot
      split
      · rename_i heq
        exact List.pairwise_cons.2 ⟨heq ▸ hq, hrest⟩
      · rename_i hne
        refine List.pairwise_cons.2 ⟨fun p hp => ?_, ih hrest⟩
        rcases mem_insertMember hp with rfl | hp
        · exact lt_of_le_of_ne (not_lt.1 hnot) (Ne.symm hne)
        · exact hq p hp

theorem ascending_object (members : List (String × Json)) :
    ∃ entries, object members = .obj entries ∧ Ascending entries := by
  refine ⟨_, rfl, ?_⟩
  refine List.foldlRecOn members _ List.Pairwise.nil ?_
  intro sorted h p _
  exact h.insertMember p.1 p.2

theorem Ascending.mem_before_iff {before after : List (String × Json)} {p q : String × Json}
    (h : Ascending (before ++ p :: after)) :
    q ∈ before ↔ q ∈ before ++ p :: after ∧ q.1 < p.1 := by
  obtain ⟨_, hafter, hbefore⟩ := List.pairwise_append.1 h
  constructor
  · intro hq
    exact ⟨List.mem_append_left _ hq, hbefore q hq p List.mem_cons_self⟩
  · rintro ⟨hq, hlt⟩
    rcases List.mem_append.1 hq with hq | hq
    · exact hq
    · rcases List.mem_cons.1 hq with rfl | hq
      · exact absurd hlt (lt_irrefl _)
      · exact absurd hlt (((List.pairwise_cons.1 hafter).1 q hq).asymm)

theorem Ascending.exists_split_iff {entries : List (String × Json)} (h : Ascending entries)
    {P Q : String × Json → Prop} :
    (∃ before p after, entries = before ++ p :: after ∧ (∀ q ∈ before, P q) ∧ Q p) ↔
      ∃ p ∈ entries, (∀ q ∈ entries, q.1 < p.1 → P q) ∧ Q p := by
  constructor
  · rintro ⟨before, p, after, rfl, hbefore, hp⟩
    refine ⟨p, by simp, fun q hq hlt => hbefore q ?_, hp⟩
    exact h.mem_before_iff.2 ⟨hq, hlt⟩
  · rintro ⟨p, hmem, hbefore, hp⟩
    obtain ⟨before, after, rfl⟩ := List.append_of_mem hmem
    refine ⟨before, p, after, rfl, fun q hq => ?_, hp⟩
    obtain ⟨hq, hlt⟩ := h.mem_before_iff.1 hq
    exact hbefore q hq hlt

end ApiContract.Json
