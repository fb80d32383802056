import ApiContract.Proofs.Schema.Acceptance

/-!
Schemas that accept more. A schema widens another one if it accepts every value that the other
accepts and can take its place inside a third one. For this it has to declare the same names and
more, as a strict intersection looks at them. Relaxing a schema, at any place and any number of
times, widens it.
-/

namespace ApiContract

structure Matched {α : Type} (R : α → α → Prop) (as bs : List α) : Prop where
  forth : ∀ a ∈ as, ∃ b ∈ bs, R a b
  back : ∀ b ∈ bs, ∃ a ∈ as, R a b

section Matched

variable {α : Type} {R : α → α → Prop} {as bs before after : List α} {a b : α}

theorem matched_of_perm (hrefl : ∀ a, R a a) (h : as.Perm bs) : Matched R as bs :=
  ⟨fun a ha => ⟨a, h.mem_iff.1 ha, hrefl a⟩, fun b hb => ⟨b, h.mem_iff.2 hb, hrefl b⟩⟩

theorem exists_mem_replace (hrefl : ∀ a, R a a) (h : R a b) :
    ∀ c ∈ before ++ a :: after, ∃ d ∈ before ++ b :: after, R c d := by
  intro c hc
  rw [List.mem_append, List.mem_cons] at hc
  rcases hc with hc | rfl | hc
  · exact ⟨c, by simp [hc], hrefl c⟩
  · exact ⟨b, by simp, h⟩
  · exact ⟨c, by simp [hc], hrefl c⟩

theorem matched_map {f : α → α} (h : ∀ a ∈ as, R a (f a)) : Matched R as (as.map f) :=
  ⟨fun a ha => ⟨f a, List.mem_map_of_mem ha, h a ha⟩,
    List.forall_mem_map.2 fun a ha => ⟨a, ha, h a ha⟩⟩

theorem matched_replace (hrefl : ∀ a, R a a) (h : R a b) :
    Matched R (before ++ a :: after) (before ++ b :: after) :=
  ⟨exists_mem_replace hrefl h, exists_mem_replace (R := flip R) hrefl h⟩

end Matched

/-- `s'` accepts what `s` accepts, also in the place of `s` in another schema. -/
structure Schema.Widens (s s' : Schema) : Prop where
  accepts : ∀ {mode v}, Accepts mode s v → Accepts mode s' v
  declares : s.declaredNames ⊆ s'.declaredNames
  scalar : s.isScalar = false → s'.isScalar = false

structure Field.Widens (f f' : Field) : Prop where
  name : f.name = f'.name
  optional : f.optional = true → f'.optional = true
  schema : f.schema.Widens f'.schema

namespace Schema.Widens

theorem refl (s : Schema) : s.Widens s :=
  ⟨id, List.Subset.refl _, id⟩

theorem trans {s t u : Schema} (h : s.Widens t) (h' : t.Widens u) : s.Widens u :=
  ⟨h'.accepts ∘ h.accepts, List.Subset.trans h.declares h'.declares, h'.scalar ∘ h.scalar⟩

end Schema.Widens

theorem Field.Widens.refl (f : Field) : f.Widens f :=
  ⟨rfl, id, .refl f.schema⟩

namespace Schema.Widens

theorem shape {fields fields' : List Field} (h : Matched Field.Widens fields fields') :
    (Schema.shape fields).Widens (.shape fields') := by
  constructor
  · intro mode v hv
    cases hv with
    | shape hmeta hpresent habsent hkeys =>
      refine .shape hmeta ?_ ?_ ?_
      · intro f' hf' hm v hv
        obtain ⟨f, hf, hwidens⟩ := h.back f' hf'
        rw [Field.isMeta, ← hwidens.name] at hm
        rw [← hwidens.name] at hv
        exact hwidens.schema.accepts (hpresent f hf hm v hv)
      · intro f' hf' hm hnone
        obtain ⟨f, hf, hwidens⟩ := h.back f' hf'
        rw [Field.isMeta, ← hwidens.name] at hm
        rw [← hwidens.name] at hnone
        exact hwidens.optional (habsent f hf hm hnone)
      · intro hstrict p hp
        obtain ⟨f, hf, hm, hname⟩ := hkeys hstrict p hp
        obtain ⟨f', hf', hwidens⟩ := h.forth f hf
        rw [Field.isMeta, hwidens.name] at hm
        exact ⟨f', hf', hm, hwidens.name ▸ hname⟩
  · intro name
    simp only [declaredNames, Field.names, Field.declared, List.mem_map, List.mem_filter]
    rintro ⟨f, ⟨hf, hm⟩, rfl⟩
    obtain ⟨f', hf', hwidens⟩ := h.forth f hf
    rw [Field.isMeta, hwidens.name] at hm
    exact ⟨f', ⟨hf', hm⟩, hwidens.name.symm⟩
  · exact id

theorem arrayOf {items items' : Schema} (h : items.Widens items') :
    (Schema.arrayOf items).Widens (.arrayOf items') := by
  constructor
  · intro mode v hv
    cases hv with
    | arrayOf hitems => exact .arrayOf fun v hv => h.accepts (hitems v hv)
  · exact List.Subset.refl _
  · exact id

theorem mapOf {values values' : Schema} (h : values.Widens values') :
    (Schema.mapOf values).Widens (.mapOf values') := by
  constructor
  · intro mode v hv
    cases hv with
    | mapOf hvalues => exact .mapOf fun p hp => h.accepts (hvalues p hp)
  · exact List.Subset.refl _
  · exact id

theorem declaredNamesList_subset {schemas schemas' : List Schema}
    (h : ∀ s ∈ schemas, ∃ s' ∈ schemas', s.Widens s') :
    declaredNamesList schemas ⊆ declaredNamesList schemas' := by
  intro name
  simp only [mem_declaredNamesList]
  rintro ⟨s, hs, hname⟩
  obtain ⟨s', hs', hwidens⟩ := h s hs
  exact ⟨s', hs', hwidens.declares hname⟩

theorem anyOf {variants variants' : List Schema}
    (h : ∀ s ∈ variants, ∃ s' ∈ variants', s.Widens s') :
    (Schema.anyOf variants).Widens (.anyOf variants') := by
  constructor
  · intro mode v hv
    cases hv with
    | anyOf hs haccepts =>
      obtain ⟨s', hs', hwidens⟩ := h _ hs
      exact .anyOf hs' (hwidens.accepts haccepts)
  · intro name hname
    rw [declaredNames, List.mem_eraseDups] at hname ⊢
    exact declaredNamesList_subset h hname
  · exact id

theorem allOf {members members' : List Schema} (h : Matched Widens members members') :
    (Schema.allOf members).Widens (.allOf members') := by
  constructor
  · intro mode v hv
    rw [accepts_allOf_iff] at hv ⊢
    obtain ⟨⟨hne, hscalar⟩, hmembers, hkeys⟩ := hv
    refine ⟨⟨?_, ?_⟩, ?_, ?_⟩
    · obtain ⟨s, hs⟩ := List.exists_mem_of_ne_nil members hne
      obtain ⟨s', hs', _⟩ := h.forth s hs
      exact List.ne_nil_of_mem hs'
    · intro s' hs'
      obtain ⟨s, hs, hwidens⟩ := h.back s' hs'
      exact hwidens.scalar (hscalar s hs)
    · intro s' hs'
      obtain ⟨s, hs, hwidens⟩ := h.back s' hs'
      exact hwidens.accepts (hmembers s hs)
    · intro hstrict entries hv p hp
      exact declaredNamesList_subset h.forth (hkeys hstrict entries hv p hp)
  · intro name hname
    rw [declaredNames, List.mem_eraseDups] at hname ⊢
    exact declaredNamesList_subset h.forth hname
  · exact id

theorem refined {base base' : Schema} {predicate predicate' : Option Predicate}
    (h : base.Widens base') (hpredicate : ∀ p ∈ predicate', p ∈ predicate) :
    (Schema.refined base predicate).Widens (.refined base' predicate') := by
  constructor
  · intro mode v hv
    rw [accepts_refined_iff] at hv ⊢
    exact ⟨h.accepts hv.1, fun p hp => hv.2 p (hpredicate p hp)⟩
  · simpa only [declaredNames] using h.declares
  · exact id

end Schema.Widens

namespace Schema

/-- A change at one place of a schema, at any depth. -/
inductive Within (change : Schema → Schema → Prop) : Schema → Schema → Prop
  | here {s s'} : change s s' → Within change s s'
  | shape {before after name optional s s'} : Within change s s' →
    Within change (.shape (before ++ ⟨name, optional, s⟩ :: after))
      (.shape (before ++ ⟨name, optional, s'⟩ :: after))
  | arrayOf {s s'} : Within change s s' → Within change (.arrayOf s) (.arrayOf s')
  | mapOf {s s'} : Within change s s' → Within change (.mapOf s) (.mapOf s')
  | anyOf {before after s s'} : Within change s s' →
    Within change (.anyOf (before ++ s :: after)) (.anyOf (before ++ s' :: after))
  | allOf {before after s s'} : Within change s s' →
    Within change (.allOf (before ++ s :: after)) (.allOf (before ++ s' :: after))
  | refined {predicate s s'} : Within change s s' →
    Within change (.refined s predicate) (.refined s' predicate)

variable {change : Schema → Schema → Prop} {s s' : Schema}

theorem Within.widens (hchange : ∀ {s s'}, change s s' → s.Widens s') (h : Within change s s') :
    s.Widens s' := by
  induction h with
  | here h => exact hchange h
  | shape _ ih => exact .shape (matched_replace .refl ⟨rfl, id, ih⟩)
  | arrayOf _ ih => exact ih.arrayOf
  | mapOf _ ih => exact ih.mapOf
  | anyOf _ ih => exact .anyOf (matched_replace .refl ih).forth
  | allOf _ ih => exact .allOf (matched_replace .refl ih)
  | refined _ ih => exact ih.refined fun _ => id

theorem Within.symm (hchange : ∀ {s s'}, change s s' → change s' s) (h : Within change s s') :
    Within change s' s := by
  induction h with
  | here h => exact .here (hchange h)
  | shape _ ih => exact .shape ih
  | arrayOf _ ih => exact .arrayOf ih
  | mapOf _ ih => exact .mapOf ih
  | anyOf _ ih => exact .anyOf ih
  | allOf _ ih => exact .allOf ih
  | refined _ ih => exact .refined ih

theorem widens_of_changes (hchange : ∀ {s s'}, change s s' → s.Widens s')
    (h : Relation.ReflTransGen (Within change) s s') : s.Widens s' := by
  induction h with
  | refl => exact .refl s
  | tail _ h ih => exact ih.trans (h.widens hchange)

inductive Relaxes : Schema → Schema → Prop
  | optional {before after name schema} :
    Relaxes (.shape (before ++ ⟨name, false, schema⟩ :: after))
      (.shape (before ++ ⟨name, true, schema⟩ :: after))
  | predicate {base p} : Relaxes (.refined base (some p)) (.refined base none)
  | variant {before after s} : Relaxes (.anyOf (before ++ after)) (.anyOf (before ++ s :: after))

theorem Relaxes.widens (h : Relaxes s s') : s.Widens s' := by
  cases h with
  | optional => exact .shape (matched_replace .refl ⟨rfl, fun _ => rfl, .refl _⟩)
  | predicate => exact .refined (.refl _) nofun
  | variant =>
    refine .anyOf fun t ht => ⟨t, ?_, .refl t⟩
    exact (List.Sublist.append_left (List.sublist_cons_self _ _) _).subset ht

/-- Relaxing a schema any number of times, at any depth, keeps what it accepts. -/
theorem validate_eq_ok_of_relaxed {mode : Mode} {v : Json}
    (h : Relation.ReflTransGen (Within Relaxes) s s') (hv : s.validate mode v = .ok ()) :
    s'.validate mode v = .ok () := by
  rw [validate_eq_ok] at hv ⊢
  exact (widens_of_changes Relaxes.widens h).accepts hv

theorem validate_eq_ok_of_relaxed_thrice :
    let p : Predicate := ⟨"any", fun _ => .accept⟩
    let state : Schema := .shape [⟨"open", false, .boolean⟩]
    let s : Schema := .allOf [.shape [⟨"id", false, .refined .string (some p)⟩], .anyOf [state]]
    let s' : Schema := .allOf [.shape [⟨"id", true, .refined .string none⟩], .anyOf [.null, state]]
    let v : Json := .obj [("id", .str "a"), ("open", .bool true)]
    Relation.ReflTransGen (Within Relaxes) s s' ∧ s.validate .strict v = .ok () ∧
      s'.validate .strict v = .ok () := by
  intro p state s s' v
  have hrelaxed : Relation.ReflTransGen (Within Relaxes) s s' := by
    refine .head (@Within.allOf _ [] _ _ _ (@Within.shape _ [] [] _ _ _ _ (.here .predicate))) ?_
    refine .head (@Within.allOf _ [] _ _ _ (.here (@Relaxes.optional [] [] _ _))) ?_
    exact .single (@Within.allOf _ [_] [] _ _ (.here (@Relaxes.variant [] [state] .null)))
  have hv : s.validate .strict v = .ok () := by cbv
  exact ⟨hrelaxed, hv, validate_eq_ok_of_relaxed hrelaxed hv⟩

end Schema

end ApiContract
