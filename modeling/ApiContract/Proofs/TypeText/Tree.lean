import ApiContract.Proofs.Schema.Structure

namespace ApiContract

inductive TypeOperator where
  | union
  | intersection
  deriving DecidableEq

inductive TypeExpr where
  | primitive (kind : Primitive)
  | never
  | literal (value : Literal)
  | array (items : TypeExpr)
  | record (values : TypeExpr)
  | object (fields : List (String × Bool × TypeExpr))
  | compound (operator : TypeOperator) (operands : List TypeExpr)

namespace TypeExpr

def operandsOf (operator : TypeOperator) : TypeExpr → List TypeExpr
  | .compound op operands => if op = operator then operands else [.compound op operands]
  | t => [t]

def combine (operator : TypeOperator) (types : List TypeExpr) : TypeExpr :=
  match types.flatMap (operandsOf operator) with
  | [] => .never
  | [t] => t
  | operands => .compound operator operands

def Flat : TypeExpr → Prop
  | .compound operator operands =>
    2 ≤ operands.length ∧ ∀ t ∈ operands, operandsOf operator t = [t]
  | _ => True

variable {t : TypeExpr} {types : List TypeExpr}

theorem operandsOf_compound (operator : TypeOperator) (operands : List TypeExpr) :
    operandsOf operator (.compound operator operands) = operands := by
  simp [operandsOf]

theorem operandsOf_eq_or (operator : TypeOperator) (t : TypeExpr) :
    operandsOf operator t = [t] ∨ ∃ operands, t = .compound operator operands := by
  cases t with
  | compound op operands =>
    by_cases h : op = operator
    · exact .inr ⟨operands, by rw [h]⟩
    · simp [operandsOf, h]
  | _ => exact .inl rfl

theorem Flat.length_operandsOf_pos (h : t.Flat) (operator : TypeOperator) :
    0 < (operandsOf operator t).length := by
  rcases operandsOf_eq_or operator t with hself | ⟨operands, rfl⟩
  · simp [hself]
  · have hlength := h.1
    rw [operandsOf_compound]
    omega

theorem Flat.operandsOf_of_mem (h : t.Flat) {operator : TypeOperator} {u : TypeExpr}
    (hu : u ∈ operandsOf operator t) : operandsOf operator u = [u] := by
  rcases operandsOf_eq_or operator t with hself | ⟨operands, rfl⟩
  · rw [hself, List.mem_singleton] at hu
    rw [hu, hself]
  · rw [operandsOf_compound] at hu
    exact h.2 u hu

theorem Flat.combine_singleton (h : t.Flat) (operator : TypeOperator) :
    combine operator [t] = t := by
  rw [combine, List.flatMap_singleton]
  rcases operandsOf_eq_or operator t with hself | ⟨operands, rfl⟩
  · rw [hself]
  · rw [operandsOf_compound]
    match operands, h.1 with
    | _ :: _ :: _, _ => rfl

theorem length_le_operandsOf (operator : TypeOperator) (h : ∀ t ∈ types, t.Flat) :
    types.length ≤ (types.flatMap (operandsOf operator)).length := by
  induction types with
  | nil => simp
  | cons t rest ih =>
    have hpos := (h t (by simp)).length_operandsOf_pos operator
    have hrest := ih fun t ht => h t (by simp [ht])
    rw [List.flatMap_cons, List.length_append, List.length_cons]
    omega

theorem combine_eq_compound {operator : TypeOperator}
    (h : 2 ≤ (types.flatMap (operandsOf operator)).length) :
    combine operator types = .compound operator (types.flatMap (operandsOf operator)) := by
  rw [combine]
  match types.flatMap (operandsOf operator), h with
  | _ :: _ :: _, _ => rfl

theorem operandsOf_combine (operator : TypeOperator) (h : ∀ t ∈ types, t.Flat) (hne : types ≠ []) :
    operandsOf operator (combine operator types) = types.flatMap (operandsOf operator) := by
  match types with
  | [t] => rw [(h t (by simp)).combine_singleton, List.flatMap_singleton]
  | t :: u :: rest =>
    have hlength := length_le_operandsOf operator h
    simp only [List.length_cons] at hlength
    rw [combine_eq_compound (by omega), operandsOf_compound]

theorem flat_combine (operator : TypeOperator) (h : ∀ t ∈ types, t.Flat) :
    (combine operator types).Flat := by
  match types with
  | [] => exact trivial
  | [t] =>
    rw [(h t (by simp)).combine_singleton]
    exact h t (by simp)
  | t :: u :: rest =>
    have hlength := length_le_operandsOf operator h
    simp only [List.length_cons] at hlength
    rw [combine_eq_compound (by omega)]
    refine ⟨by omega, fun v hv => ?_⟩
    obtain ⟨w, hw, hv⟩ := List.mem_flatMap.1 hv
    exact (h w hw).operandsOf_of_mem hv

theorem length_operandsOf_eq_one {operator other : TypeOperator} (hother : operator ≠ other)
    (h : 2 ≤ (operandsOf operator t).length) : (operandsOf other t).length = 1 := by
  -- a compound is no compound of the other operator
  rcases operandsOf_eq_or operator t with hself | ⟨operands, rfl⟩
  · rw [hself] at h
    simp at h
  · simp [operandsOf, hother]

theorem Flat.eq_of_operandsOf_eq {t u : TypeExpr} (ht : t.Flat) (hu : u.Flat)
    {operator : TypeOperator} (h : operandsOf operator t = operandsOf operator u) : t = u := by
  rw [← ht.combine_singleton operator, ← hu.combine_singleton operator, combine, combine,
    List.flatMap_singleton, List.flatMap_singleton, h]

theorem length_flatMap_le {α β : Type} {xs : List α} {f g : α → List β}
    (h : ∀ x ∈ xs, (f x).length ≤ (g x).length) :
    (xs.flatMap f).length ≤ (xs.flatMap g).length := by
  induction xs with
  | nil => simp
  | cons x rest ih =>
    have hx := h x (by simp)
    have hrest := ih fun x hx => h x (by simp [hx])
    simp only [List.flatMap_cons, List.length_append]
    omega

theorem eq_of_flatMap_eq {α β : Type} {xs : List α} {f g : α → List β}
    (h : ∀ x ∈ xs, (f x).length ≤ (g x).length) (heq : xs.flatMap g = xs.flatMap f) :
    ∀ x ∈ xs, g x = f x := by
  induction xs with
  | nil => simp
  | cons x rest ih =>
    have hx := h x (by simp)
    have hrest := length_flatMap_le fun x hx => h x (List.mem_cons_of_mem _ hx)
    simp only [List.flatMap_cons] at heq
    have hlength := congrArg List.length heq
    simp only [List.length_append] at hlength
    obtain ⟨hhead, htail⟩ := List.append_inj heq (by omega)
    intro y hy
    rcases List.mem_cons.1 hy with rfl | hy
    · exact hhead
    · exact ih (fun x hx => h x (by simp [hx])) htail y hy

variable {α : Type} {xs : List α} {f g : α → TypeExpr} {operator : TypeOperator}

theorem length_operandsOf_combine_le (hf : ∀ x ∈ xs, (f x).Flat) (hg : ∀ x ∈ xs, (g x).Flat)
    (h : ∀ x ∈ xs, (operandsOf operator (f x)).length ≤ (operandsOf operator (g x)).length) :
    (operandsOf operator (combine operator (xs.map f))).length ≤
      (operandsOf operator (combine operator (xs.map g))).length := by
  cases xs with
  | nil => exact Nat.le_refl _
  | cons x rest =>
    rw [operandsOf_combine operator (by simpa using hf) (by simp),
      operandsOf_combine operator (by simpa using hg) (by simp), List.flatMap_map, List.flatMap_map]
    exact length_flatMap_le h

theorem combine_map_inj (hf : ∀ x ∈ xs, (f x).Flat) (hg : ∀ x ∈ xs, (g x).Flat)
    (h : ∀ x ∈ xs, (operandsOf operator (f x)).length ≤ (operandsOf operator (g x)).length) :
    combine operator (xs.map g) = combine operator (xs.map f) ↔ ∀ x ∈ xs, g x = f x := by
  constructor
  · intro heq x hx
    have hne : xs ≠ [] := List.ne_nil_of_mem hx
    have hoperands := congrArg (operandsOf operator) heq
    rw [operandsOf_combine operator (by simpa using hg) (by simpa using hne),
      operandsOf_combine operator (by simpa using hf) (by simpa using hne), List.flatMap_map,
      List.flatMap_map] at hoperands
    exact (hg x hx).eq_of_operandsOf_eq (hf x hx) (eq_of_flatMap_eq h hoperands x hx)
  · intro heq
    rw [List.map_congr_left heq]

end TypeExpr

namespace Schema

mutual

def typeTree : Schema → TypeExpr
  | .primitive p => .primitive p
  | .literal l => .literal l
  | .shape fields => .object (fieldTrees fields)
  | .arrayOf items => .array items.typeTree
  | .mapOf values => .record values.typeTree
  | .anyOf variants => .combine .union (typeTrees variants)
  | .allOf members => .combine .intersection (typeTrees members)
  | .refined base _ => base.typeTree
termination_by structural s => s

def fieldTrees : List Field → List (String × Bool × TypeExpr)
  | [] => []
  | ⟨name, optional, schema⟩ :: rest =>
    if Identifier.isMeta name then
      fieldTrees rest
    else
      (name, optional, schema.typeTree) :: fieldTrees rest
termination_by structural fields => fields

def typeTrees : List Schema → List TypeExpr
  | [] => []
  | s :: rest => s.typeTree :: typeTrees rest
termination_by structural schemas => schemas

end

theorem typeTrees_eq_map (schemas : List Schema) : typeTrees schemas = schemas.map typeTree := by
  induction schemas with
  | nil => rfl
  | cons s rest ih => rw [typeTrees, ih, List.map_cons]

theorem fieldTrees_eq_map (fields : List Field) : fieldTrees fields =
    (Field.declared fields).map fun f => (f.name, f.optional, f.schema.typeTree) := by
  induction fields with
  | nil => rfl
  | cons f rest ih =>
    obtain ⟨name, optional, schema⟩ := f
    rw [fieldTrees, ih]
    cases h : Identifier.isMeta name <;> simp [Field.declared, Field.isMeta, h]

theorem flat_typeTree (s : Schema) : s.typeTree.Flat := by
  induction s with
  | primitive => exact trivial
  | literal => exact trivial
  | shape => exact trivial
  | arrayOf => exact trivial
  | mapOf => exact trivial
  | anyOf variants ih =>
    rw [typeTree, typeTrees_eq_map]
    exact TypeExpr.flat_combine _ (by simpa using ih)
  | allOf members ih =>
    rw [typeTree, typeTrees_eq_map]
    exact TypeExpr.flat_combine _ (by simpa using ih)
  | refined base predicate ih =>
    rw [typeTree]
    exact ih

end Schema

end ApiContract
