import ApiContract.Proofs.TypeText.Reader

namespace ApiContract

open TypeExpr

namespace TypeText

namespace Phrase

def Flat (p : Phrase) : Prop :=
  ∀ product ∈ p.allProducts, product ≠ [] ∧ ∀ t ∈ product, t.Flat

variable {p q : Phrase}

theorem flat_ofOperand {t : TypeExpr} (h : t.Flat) : (ofOperand t).Flat := by
  simpa [Flat, ofOperand, allProducts, Sum.empty] using h

theorem Flat.array (h : p.Flat) : p.array.Flat := by
  simp only [Flat, Phrase.array, allProducts, List.mem_append, List.mem_singleton] at h ⊢
  rintro product (hproduct | rfl)
  · exact h product (.inl hproduct)
  · refine ⟨by simp, fun t ht => ?_⟩
    rcases List.mem_append.1 ht with ht | ht
    · exact (h _ (.inr rfl)).2 t (List.mem_append_left _ ht)
    · rw [List.mem_singleton.1 ht]
      exact trivial

theorem allProducts_or (p q : Phrase) :
    (p.or.followedBy q).allProducts = p.allProducts ++ q.allProducts := by
  obtain ⟨⟨products, factors⟩, operand⟩ := q
  cases products <;> simp [Sum.followedBy, Phrase.or, allProducts]

theorem Flat.or (hp : p.Flat) (hq : q.Flat) : (p.or.followedBy q).Flat := by
  intro product hproduct
  rw [allProducts_or, List.mem_append] at hproduct
  exact hproduct.elim (hp product) (hq product)

theorem allProducts_and (p q : Phrase) : ∃ first rest, q.allProducts = first :: rest ∧
    (p.and.followedBy q).allProducts =
      p.products ++ (p.factors ++ [p.operand] ++ first) :: rest := by
  obtain ⟨⟨products, factors⟩, operand⟩ := q
  cases products <;> simp [Sum.followedBy, Phrase.and, allProducts]

theorem Flat.and (hp : p.Flat) (hq : q.Flat) : (p.and.followedBy q).Flat := by
  obtain ⟨first, rest, hproducts, hjoined⟩ := allProducts_and p q
  simp only [Flat, hproducts, List.forall_mem_cons] at hq
  simp only [Flat, allProducts, List.forall_mem_append, List.forall_mem_singleton] at hp
  simp only [Flat, hjoined, List.forall_mem_append, List.forall_mem_cons]
  exact ⟨hp.1, ⟨by simp, ⟨hp.2.2.1, by simpa using hp.2.2.2⟩, hq.1.2⟩, hq.2⟩

theorem Flat.products (h : p.Flat) : ∀ t ∈ p.allProducts.map (combine .intersection), t.Flat := by
  simp only [List.forall_mem_map]
  exact fun product hproduct => flat_combine _ (h product hproduct).2

theorem Flat.tree (h : p.Flat) : p.tree.Flat :=
  flat_combine _ h.products

theorem operandsOf_tree (h : p.Flat) : operandsOf .union p.tree =
    (p.allProducts.map (combine .intersection)).flatMap (operandsOf .union) := by
  rw [tree, operandsOf_combine _ h.products (by simp [allProducts])]

theorem operandsOf_tree_or (hp : p.Flat) (hq : q.Flat) :
    operandsOf .union (p.or.followedBy q).tree =
      operandsOf .union p.tree ++ operandsOf .union q.tree := by
  rw [operandsOf_tree (hp.or hq), allProducts_or, List.map_append, List.flatMap_append,
    operandsOf_tree hp, operandsOf_tree hq]

theorem tree_of_products_eq_nil (h : p.Flat) (hp : p.products = []) :
    p.tree = combine .intersection (p.factors ++ [p.operand]) := by
  have hproduct := h (p.factors ++ [p.operand]) (by simp [allProducts, hp])
  rw [tree, allProducts, hp, List.nil_append, List.map_singleton]
  exact (flat_combine _ hproduct.2).combine_singleton _

theorem operandsOf_tree_of_products_eq_nil (h : p.Flat) (hp : p.products = []) :
    operandsOf .intersection p.tree =
      (p.factors ++ [p.operand]).flatMap (operandsOf .intersection) := by
  have hproduct := h (p.factors ++ [p.operand]) (by simp [allProducts, hp])
  rw [tree_of_products_eq_nil h hp, operandsOf_combine _ hproduct.2 hproduct.1]

theorem operandsOf_tree_and (hp : p.Flat) (hq : q.Flat) (hp' : p.products = [])
    (hq' : q.products = []) : (p.and.followedBy q).products = [] ∧
    operandsOf .intersection (p.and.followedBy q).tree =
      operandsOf .intersection p.tree ++ operandsOf .intersection q.tree := by
  have hjoined : p.and.followedBy q = ⟨⟨[], p.factors ++ [p.operand] ++ q.factors⟩, q.operand⟩ := by
    simp [Sum.followedBy, Phrase.and, hp', hq']
  have hflat := hp.and hq
  rw [hjoined] at hflat ⊢
  refine ⟨rfl, ?_⟩
  rw [operandsOf_tree_of_products_eq_nil hflat rfl, operandsOf_tree_of_products_eq_nil hp hp',
    operandsOf_tree_of_products_eq_nil hq hq']
  simp

end Phrase

inductive Level where
  | operand
  | intersection
  | union
  deriving DecidableEq

def Level.sup : Level → Level → Level
  | .union, _ => .union
  | _, .union => .union
  | .intersection, _ => .intersection
  | _, .intersection => .intersection
  | .operand, .operand => .operand

namespace Phrase

def level (p : Phrase) : Level :=
  match p.products, p.factors with
  | _ :: _, _ => .union
  | [], _ :: _ => .intersection
  | [], [] => .operand

variable {p q : Phrase}

theorem products_eq_nil_iff : p.products = [] ↔ p.level ≠ .union := by
  obtain ⟨⟨products, factors⟩, operand⟩ := p
  rcases products with _ | ⟨product, products⟩ <;> rcases factors with _ | ⟨factor, factors⟩ <;>
    simp [level]

theorem level_or (p q : Phrase) :
    (p.or.followedBy q).level = p.level.sup (Level.union.sup q.level) := by
  obtain ⟨⟨products, factors⟩, operand⟩ := p
  obtain ⟨⟨products', factors'⟩, operand'⟩ := q
  cases products <;> cases factors <;> cases products' <;> rfl

theorem level_and (p q : Phrase) :
    (p.and.followedBy q).level = p.level.sup (Level.intersection.sup q.level) := by
  obtain ⟨⟨products, factors⟩, operand⟩ := p
  obtain ⟨⟨products', factors'⟩, operand'⟩ := q
  cases products <;> cases factors <;> cases products' <;> cases factors' <;> rfl

theorem eq_ofOperand_of_level (h : p.level = .operand) : p = ofOperand p.operand := by
  obtain ⟨⟨products, factors⟩, operand⟩ := p
  rcases products with _ | ⟨product, products⟩ <;> rcases factors with _ | ⟨factor, factors⟩
  · rfl
  · simp [level] at h
  · simp [level] at h
  · simp [level] at h

theorem tree_ofOperand {t : TypeExpr} (h : t.Flat) : (ofOperand t).tree = t := by
  rw [tree_of_products_eq_nil (flat_ofOperand h) rfl]
  exact h.combine_singleton _

theorem tree_array (h : p.Flat) (hlevel : p.level = .operand) : p.array.tree = .array p.tree := by
  have hoperand : p.operand.Flat :=
    (h (p.factors ++ [p.operand]) (by simp [allProducts])).2 _ (by simp)
  rw [eq_ofOperand_of_level hlevel, tree_ofOperand hoperand]
  exact tree_ofOperand (t := .array p.operand) trivial

theorem two_le_of_level_eq_union (h : p.Flat) (hlevel : p.level = .union) :
    2 ≤ (operandsOf .union p.tree).length := by
  have hproducts : p.products ≠ [] := fun hnil => products_eq_nil_iff.1 hnil hlevel
  have hlength := length_le_operandsOf .union h.products
  rw [← operandsOf_tree h, List.length_map, allProducts, List.length_append] at hlength
  have hpos := List.length_pos_iff.2 hproducts
  simp at hlength
  omega

theorem two_le_of_level_eq_intersection (h : p.Flat) (hlevel : p.level = .intersection) :
    2 ≤ (operandsOf .intersection p.tree).length := by
  have hproducts : p.products = [] := products_eq_nil_iff.2 (by simp [hlevel])
  have hfactors : p.factors ≠ [] := by
    intro hnil
    simp [level, hproducts, hnil] at hlevel
  have hfactor := (h (p.factors ++ [p.operand]) (by simp [allProducts, hproducts])).2
  have hlength := length_le_operandsOf .intersection hfactor
  rw [← operandsOf_tree_of_products_eq_nil h hproducts, List.length_append] at hlength
  have hpos := List.length_pos_iff.2 hfactors
  simp at hlength
  omega

theorem exists_two_le_of_level_ne_operand (h : p.Flat) (hlevel : p.level ≠ .operand) :
    ∃ operator, 2 ≤ (operandsOf operator p.tree).length := by
  cases hcase : p.level with
  | operand => exact absurd hcase hlevel
  | intersection => exact ⟨_, two_le_of_level_eq_intersection h hcase⟩
  | union => exact ⟨_, two_le_of_level_eq_union h hcase⟩

def grouped (compound : Bool) (p : Phrase) : Phrase :=
  if compound then .ofOperand p.tree else p

theorem Flat.grouped (h : p.Flat) (compound : Bool) : (p.grouped compound).Flat := by
  cases compound with
  | false => exact h
  | true => exact flat_ofOperand h.tree

theorem tree_grouped (h : p.Flat) (compound : Bool) : (p.grouped compound).tree = p.tree := by
  cases compound with
  | false => rfl
  | true => exact tree_ofOperand h.tree

theorem level_grouped (compound : Bool) (p : Phrase) :
    (p.grouped compound).level = if compound then .operand else p.level := by
  cases compound <;> rfl

def joined (sign : Phrase → Sum) : List Phrase → Phrase
  | [] => .ofOperand .never
  | [p] => p
  | p :: q :: rest => (sign p).followedBy (joined sign (q :: rest))

theorem joined_of_forall {sign : Phrase → Sum} {Q : Phrase → Prop}
    (hjoin : ∀ p q, Q p → Q q → Q ((sign p).followedBy q)) {phrases : List Phrase}
    (hne : phrases ≠ []) (h : ∀ p ∈ phrases, Q p) : Q (joined sign phrases) := by
  induction phrases with
  | nil => exact absurd rfl hne
  | cons p rest ih =>
    cases rest with
    | nil => exact h p (by simp)
    | cons q rest => exact hjoin p _ (h p (by simp)) (ih (by simp) fun p hp => h p (by simp [hp]))

theorem flat_joined {sign : Phrase → Sum}
    (hsign : ∀ {p q : Phrase}, p.Flat → q.Flat → ((sign p).followedBy q).Flat)
    {phrases : List Phrase} (h : ∀ p ∈ phrases, p.Flat) : (joined sign phrases).Flat := by
  cases phrases with
  | nil => exact flat_ofOperand trivial
  | cons p rest => exact joined_of_forall (fun _ _ => hsign) (by simp) h

theorem tree_joined {sign : Phrase → Sum} {operator : TypeOperator} {Q : Phrase → Prop}
    (hflat : ∀ {p}, Q p → p.Flat)
    (hjoin : ∀ p q, Q p → Q q → Q ((sign p).followedBy q))
    (hoperands : ∀ {p q}, Q p → Q q → operandsOf operator ((sign p).followedBy q).tree =
      operandsOf operator p.tree ++ operandsOf operator q.tree)
    {phrases : List Phrase} (h : ∀ p ∈ phrases, Q p) :
    (joined sign phrases).tree = combine operator (phrases.map tree) := by
  induction phrases with
  | nil => exact tree_ofOperand trivial
  | cons p rest ih =>
    have hp := h p (by simp)
    have hrest : ∀ p ∈ rest, Q p := fun p hp => h p (by simp [hp])
    have htrees : ∀ t ∈ rest.map tree, t.Flat := by
      simp only [List.forall_mem_map]
      exact fun p hp => (hflat (hrest p hp)).tree
    cases rest with
    | nil => exact ((hflat hp).tree.combine_singleton operator).symm
    | cons q rest =>
      have hjoined := joined_of_forall hjoin (List.cons_ne_nil q rest) hrest
      have hall : ∀ t ∈ (p :: q :: rest).map tree, t.Flat :=
        List.forall_mem_cons.2 ⟨(hflat hp).tree, htrees⟩
      apply (hflat (hjoin p _ hp hjoined)).tree.eq_of_operandsOf_eq (flat_combine operator hall)
      rw [hoperands hp hjoined, ih hrest, operandsOf_combine operator htrees (by simp),
        operandsOf_combine operator hall (by simp)]
      rfl

theorem tree_joined_or {phrases : List Phrase} (h : ∀ p ∈ phrases, p.Flat) :
    (joined Phrase.or phrases).tree = combine .union (phrases.map tree) :=
  tree_joined id (fun _ _ => Flat.or) operandsOf_tree_or h

theorem tree_joined_and {phrases : List Phrase}
    (h : ∀ p ∈ phrases, p.Flat ∧ p.level ≠ .union) :
    (joined Phrase.and phrases).tree = combine .intersection (phrases.map tree) := by
  simp only [← products_eq_nil_iff] at h
  refine tree_joined (fun hp => hp.1) ?_ ?_ h
  · rintro p q ⟨hp, hp'⟩ ⟨hq, hq'⟩
    exact ⟨hp.and hq, (operandsOf_tree_and hp hq hp' hq').1⟩
  · rintro p q ⟨hp, hp'⟩ ⟨hq, hq'⟩
    exact (operandsOf_tree_and hp hq hp' hq').2

end Phrase

namespace Level

def joined (operator : Level) : List Level → Level
  | [] => .operand
  | [level] => level
  | level :: next :: rest => level.sup (operator.sup (joined operator (next :: rest)))

theorem sup_ne_union {k l : Level} : k.sup l ≠ .union ↔ k ≠ .union ∧ l ≠ .union := by
  cases k <;> cases l <;> decide

theorem joined_intersection_ne_union {levels : List Level} :
    joined .intersection levels ≠ .union ↔ ∀ l ∈ levels, l ≠ .union := by
  induction levels with
  | nil => simp [joined]
  | cons l rest ih =>
    cases rest with
    | nil => simp [joined]
    | cons l' rest =>
      rw [joined, sup_ne_union, sup_ne_union, ih, List.forall_mem_cons]
      simp

theorem joined_union_of_two_le {levels : List Level} (h : 2 ≤ levels.length) :
    joined .union levels = .union := by
  match levels, h with
  | l :: l' :: rest, _ => cases l <;> rfl

end Level

theorem Phrase.level_joined {sign : Phrase → Sum} {operator : Level}
    (hsign : ∀ p q : Phrase, ((sign p).followedBy q).level = p.level.sup (operator.sup q.level))
    (phrases : List Phrase) :
    (Phrase.joined sign phrases).level = Level.joined operator (phrases.map Phrase.level) := by
  induction phrases with
  | nil => rfl
  | cons p rest ih =>
    cases rest with
    | nil => rfl
    | cons q rest =>
      rw [joined, hsign, ih]
      rfl

end TypeText

end ApiContract
