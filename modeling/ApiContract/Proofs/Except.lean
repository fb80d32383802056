namespace Except

variable {ε α β γ : Type} {x : Except ε α} {b : β}

theorem bind_eq_ok {f : α → Except ε β} : (x >>= f) = .ok b ↔ ∃ a, x = .ok a ∧ f a = .ok b := by
  cases x <;> simp [bind, Except.bind]

theorem map_eq_ok {f : α → β} : x.map f = .ok b ↔ ∃ a, x = .ok a ∧ f a = b := by
  cases x <;> simp [Except.map]

theorem mapM_cons_eq_ok {f : α → Except ε β} {a : α} {as : List α} {bs : List β} :
    (a :: as).mapM f = .ok bs ↔ ∃ c cs, f a = .ok c ∧ as.mapM f = .ok cs ∧ bs = c :: cs := by
  rw [List.mapM_cons, bind_eq_ok]
  constructor
  · rintro ⟨c, hc, h⟩
    obtain ⟨cs, hcs, ⟨⟩⟩ := bind_eq_ok.1 h
    exact ⟨c, cs, hc, hcs, rfl⟩
  · rintro ⟨c, cs, hc, hcs, rfl⟩
    exact ⟨c, hc, bind_eq_ok.2 ⟨cs, hcs, rfl⟩⟩

theorem mapM_map_eq_ok {f : β → Except ε γ} {g : α → β} {h : α → γ} {as : List α}
    (hall : ∀ a ∈ as, f (g a) = .ok (h a)) : (as.map g).mapM f = .ok (as.map h) := by
  induction as with
  | nil => rfl
  | cons a rest ih =>
    obtain ⟨ha, hrest⟩ := List.forall_mem_cons.1 hall
    exact mapM_cons_eq_ok.2 ⟨h a, rest.map h, ha, ih hrest, rfl⟩

theorem mapM_map_of_mapM {f g : α → Except ε β} {r : α → α} {as : List α} {bs : List β}
    (hall : ∀ a ∈ as, ∀ b, f a = .ok b → g (r a) = .ok b) (h : as.mapM f = .ok bs) :
    (as.map r).mapM g = .ok bs := by
  induction as generalizing bs with
  | nil => exact h
  | cons a rest ih =>
    obtain ⟨ha, hrest⟩ := List.forall_mem_cons.1 hall
    obtain ⟨b, following, hb, hfollowing, rfl⟩ := mapM_cons_eq_ok.1 h
    exact mapM_cons_eq_ok.2 ⟨b, following, ha b hb, ih hrest hfollowing, rfl⟩

theorem foldlM_of_foldlM {f g : β → α → Except ε β} {as : List α} {a b : β}
    (hall : ∀ a x b, f a x = .ok b → g a x = .ok b) (h : as.foldlM f a = .ok b) :
    as.foldlM g a = .ok b := by
  induction as generalizing a with
  | nil => exact h
  | cons x rest ih =>
    rw [List.foldlM_cons] at h ⊢
    obtain ⟨c, hc, hrest⟩ := bind_eq_ok.1 h
    exact bind_eq_ok.2 ⟨c, hall a x c hc, ih hrest⟩

theorem exists_mapM_eq_ok {f : α → Except ε β} {as : List α}
    (hall : ∀ a ∈ as, ∃ b, f a = .ok b) : ∃ bs, as.mapM f = .ok bs := by
  induction as with
  | nil => exact ⟨[], rfl⟩
  | cons a rest ih =>
    obtain ⟨⟨b, hb⟩, hrest⟩ := List.forall_mem_cons.1 hall
    obtain ⟨bs, hbs⟩ := ih hrest
    exact ⟨b :: bs, mapM_cons_eq_ok.2 ⟨b, bs, hb, hbs, rfl⟩⟩

theorem forall_mem_of_mapM_eq_ok {f : α → Except ε β} {P : β → Prop} {as : List α} {bs : List β}
    (hall : ∀ a ∈ as, ∀ b, f a = .ok b → P b) (h : as.mapM f = .ok bs) : ∀ b ∈ bs, P b := by
  induction as generalizing bs with
  | nil =>
    cases h
    exact List.forall_mem_nil _
  | cons a rest ih =>
    obtain ⟨ha, hrest⟩ := List.forall_mem_cons.1 hall
    obtain ⟨b, following, hb, hfollowing, rfl⟩ := mapM_cons_eq_ok.1 h
    exact List.forall_mem_cons.2 ⟨ha b hb, ih hrest hfollowing⟩

end Except
