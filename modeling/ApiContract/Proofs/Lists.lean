import Mathlib

namespace ApiContract

section FirstOccurrences

variable {names names' : List String} {name : String}

theorem eraseDups_append_singleton (names : List String) (name : String) :
    (names ++ [name]).eraseDups =
      if name ∈ names.eraseDups then names.eraseDups else names.eraseDups ++ [name] := by
  rw [List.eraseDups_append]
  split
  · rename_i h
    rw [List.mem_eraseDups] at h
    simp [List.removeAll, h]
  · rename_i h
    rw [List.mem_eraseDups] at h
    simp [List.removeAll, h, List.eraseDups_cons]

theorem nodup_eraseDups (names : List String) : names.eraseDups.Nodup := by
  induction names using List.reverseRecOn with
  | nil => exact .nil
  | append_singleton names name ih =>
    rw [eraseDups_append_singleton]
    split
    · exact ih
    · rename_i h
      rw [List.nodup_append_comm, List.singleton_append, List.nodup_cons]
      exact ⟨h, ih⟩

theorem eraseDups_of_nodup (h : names.Nodup) : names.eraseDups = names := by
  induction names using List.reverseRecOn with
  | nil => rfl
  | append_singleton names name ih =>
    rw [List.nodup_append_comm, List.singleton_append, List.nodup_cons] at h
    rw [eraseDups_append_singleton, ih h.2, if_neg h.1]

theorem eraseDups_perm (h : names.Perm names') : names.eraseDups.Perm names'.eraseDups := by
  rw [List.perm_ext_iff_of_nodup (nodup_eraseDups names) (nodup_eraseDups names')]
  intro name
  rw [List.mem_eraseDups, List.mem_eraseDups, h.mem_iff]

theorem eraseDups_append_eraseDups (names names' : List String) :
    (names ++ names'.eraseDups).eraseDups = (names ++ names').eraseDups := by
  induction names' using List.reverseRecOn with
  | nil => rfl
  | append_singleton names' name ih =>
    rw [← List.append_assoc, eraseDups_append_singleton, eraseDups_append_singleton, ← ih]
    split
    · rename_i h
      rw [if_pos (by simp [List.mem_eraseDups, List.mem_eraseDups.1 h])]
    · rw [← List.append_assoc, eraseDups_append_singleton]

theorem eraseDups_eraseDups_append (names names' : List String) :
    (names.eraseDups ++ names').eraseDups = (names ++ names').eraseDups := by
  induction names' using List.reverseRecOn with
  | nil =>
    rw [List.append_nil, List.append_nil]
    exact eraseDups_append_eraseDups [] names
  | append_singleton names' name ih =>
    rw [← List.append_assoc, ← List.append_assoc, eraseDups_append_singleton,
      eraseDups_append_singleton, ih]

theorem eraseDups_flatMap_eraseDups {α : Type} (f : α → List String) (as : List α) :
    (as.flatMap fun a => (f a).eraseDups).eraseDups = (as.flatMap f).eraseDups := by
  induction as with
  | nil => rfl
  | cons a rest ih =>
    rw [List.flatMap_cons, List.flatMap_cons, eraseDups_eraseDups_append,
      ← eraseDups_append_eraseDups, ih, eraseDups_append_eraseDups]

theorem eraseDups_of_first {before after : List String} (h : name ∉ before) :
    ∃ rest, (before ++ name :: after).eraseDups = before.eraseDups ++ name :: rest := by
  have hname : name ∉ before.eraseDups := by rwa [List.mem_eraseDups]
  have hsplit : before ++ name :: after = (before ++ [name]) ++ after := by simp
  rw [hsplit, List.eraseDups_append, eraseDups_append_singleton, if_neg hname, List.append_assoc,
    List.singleton_append]
  exact ⟨_, rfl⟩

end FirstOccurrences

section Lookup

variable {α β : Type} [BEq α] [LawfulBEq α] {a : α} {b : β} {entries : List (α × β)}

theorem mem_of_lookup (h : entries.lookup a = some b) : (a, b) ∈ entries := by
  obtain ⟨before, after, rfl, _⟩ := List.lookup_eq_some_iff.1 h
  simp

theorem not_mem_of_lookup (h : entries.lookup a = none) (b : β) : (a, b) ∉ entries := by
  intro hmem
  have hne := List.lookup_eq_none_iff.1 h _ hmem
  simp at hne

theorem lookup_filter {keep : α × β → Bool} (h : ∀ b, keep (a, b) = true)
    (entries : List (α × β)) : (entries.filter keep).lookup a = entries.lookup a := by
  induction entries with
  | nil => rfl
  | cons p rest ih =>
    obtain ⟨key, value⟩ := p
    by_cases hkey : a = key
    · subst hkey
      rw [List.filter_cons_of_pos (h value), List.lookup_cons, List.lookup_cons, beq_self_eq_true]
    · have hne : (a == key) = false := beq_false_of_ne hkey
      rw [List.lookup_cons, hne, ← ih, List.filter_cons]
      split
      · rw [List.lookup_cons, hne]
      · rfl

end Lookup

end ApiContract
