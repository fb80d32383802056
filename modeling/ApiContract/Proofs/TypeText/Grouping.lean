import ApiContract.Proofs.TypeText.Meaning

namespace ApiContract

open TypeExpr

namespace Schema

open TypeText

mutual

def level : Schema → Level
  | .arrayOf items => if items.isCompound true then .operand else items.level
  | .anyOf variants => .joined .union (variantLevels variants)
  | .allOf members => .joined .intersection (memberLevels members)
  | .refined base _ => base.level
  | _ => .operand
termination_by structural s => s

def variantLevels : List Schema → List Level
  | [] => []
  | s :: rest => s.level :: variantLevels rest
termination_by structural variants => variants

def memberLevels : List Schema → List Level
  | [] => []
  | s :: rest => (if s.isCompound false then .operand else s.level) :: memberLevels rest
termination_by structural members => members

end

/-- Wherever the text of an operand needs parentheses, the schema is recognised as a compound. -/
inductive WellGrouped : Schema → Prop
  | primitive (kind : Primitive) : WellGrouped (.primitive kind)
  | literal (value : Literal) : WellGrouped (.literal value)
  | shape {fields : List Field} (h : ∀ f ∈ fields, f.isMeta = false → WellGrouped f.schema) :
      WellGrouped (.shape fields)
  | arrayOf {items : Schema} (h : WellGrouped items)
      (grouped : items.isCompound true ∨ items.level = .operand) : WellGrouped (.arrayOf items)
  | mapOf {values : Schema} (h : WellGrouped values) : WellGrouped (.mapOf values)
  | anyOf {variants : List Schema} (h : ∀ s ∈ variants, WellGrouped s) :
      WellGrouped (.anyOf variants)
  | allOf {members : List Schema} (h : ∀ s ∈ members, WellGrouped s)
      (grouped : members.length ≤ 1 ∨ ∀ s ∈ members, s.isCompound false ∨ s.level ≠ .union) :
      WellGrouped (.allOf members)
  | refined {base : Schema} {predicate : Option Predicate} (h : WellGrouped base) :
      WellGrouped (.refined base predicate)

def memberLevel (s : Schema) : Level :=
  if s.isCompound false then .operand else s.level

theorem variantLevels_eq_map (variants : List Schema) :
    variantLevels variants = variants.map level := by
  induction variants with
  | nil => rfl
  | cons s rest ih => rw [variantLevels, ih, List.map_cons]

theorem memberLevels_eq_map (members : List Schema) :
    memberLevels members = members.map memberLevel := by
  induction members with
  | nil => rfl
  | cons s rest ih => rw [memberLevels, ih, List.map_cons, memberLevel]

theorem memberLevel_ne_union {s : Schema} :
    s.memberLevel ≠ .union ↔ s.isCompound false ∨ s.level ≠ .union := by
  cases h : s.isCompound false <;> simp [memberLevel, h]

def readTree (s : Schema) : TypeExpr :=
  s.phrase.tree

theorem flat_phrase (s : Schema) : s.phrase.Flat := by
  induction s with
  | primitive => exact Phrase.flat_ofOperand trivial
  | literal => exact Phrase.flat_ofOperand trivial
  | shape => exact Phrase.flat_ofOperand trivial
  | mapOf => exact Phrase.flat_ofOperand trivial
  | arrayOf items ih =>
    rw [phrase]
    exact (ih.grouped _).array
  | anyOf variants ih =>
    rw [phrase, variantPhrases_eq_map]
    exact Phrase.flat_joined Phrase.Flat.or (by simpa using ih)
  | allOf members ih =>
    rw [phrase, memberPhrases_eq_map]
    refine Phrase.flat_joined Phrase.Flat.and ?_
    simp only [List.forall_mem_map]
    exact fun s hs => (ih s hs).grouped _
  | refined base predicate ih =>
    rw [phrase]
    exact ih

theorem flat_readTree (s : Schema) : s.readTree.Flat :=
  s.flat_phrase.tree

theorem level_phrase (s : Schema) : s.phrase.level = s.level := by
  induction s with
  | primitive => rfl
  | literal => rfl
  | shape => rfl
  | mapOf => rfl
  | arrayOf items ih =>
    rw [phrase, level, ← ih, ← Phrase.level_grouped]
    rfl
  | anyOf variants ih =>
    rw [phrase, variantPhrases_eq_map, Phrase.level_joined Phrase.level_or, level,
      variantLevels_eq_map, List.map_map]
    exact congrArg _ (List.map_congr_left ih)
  | allOf members ih =>
    rw [phrase, memberPhrases_eq_map, Phrase.level_joined Phrase.level_and, level,
      memberLevels_eq_map, List.map_map]
    refine congrArg _ (List.map_congr_left fun s hs => ?_)
    rw [Function.comp_apply, memberPhrase, memberLevel, Phrase.level_grouped, ih s hs]
  | refined base predicate ih =>
    rw [phrase, level]
    exact ih

theorem readTree_memberPhrase (s : Schema) : s.memberPhrase.tree = s.readTree :=
  Phrase.tree_grouped s.flat_phrase _

theorem flat_memberPhrase (s : Schema) : s.memberPhrase.Flat :=
  s.flat_phrase.grouped _

theorem level_memberPhrase (s : Schema) : s.memberPhrase.level = s.memberLevel := by
  rw [memberPhrase, memberLevel, Phrase.level_grouped, level_phrase]

theorem readTree_anyOf (variants : List Schema) :
    (anyOf variants).readTree = combine .union (variants.map readTree) := by
  rw [readTree, phrase, variantPhrases_eq_map, Phrase.tree_joined_or, List.map_map]
  · rfl
  · simp only [List.forall_mem_map]
    exact fun s _ => s.flat_phrase

theorem readTree_allOf {members : List Schema} (h : ∀ s ∈ members, s.memberLevel ≠ .union) :
    (allOf members).readTree = combine .intersection (members.map readTree) := by
  rw [readTree, phrase, memberPhrases_eq_map, Phrase.tree_joined_and, List.map_map]
  · exact congrArg _ (List.map_congr_left fun s _ => s.readTree_memberPhrase)
  · simp only [List.forall_mem_map]
    exact fun s hs => ⟨s.flat_memberPhrase, by simpa [level_memberPhrase] using h s hs⟩

theorem readTree_arrayOf {items : Schema}
    (h : items.isCompound true ∨ items.level = .operand) :
    (arrayOf items).readTree = .array items.readTree := by
  have hlevel : (items.phrase.grouped (items.isCompound true)).level = .operand := by
    rw [Phrase.level_grouped, level_phrase]
    rcases h with h | h <;> simp [h]
  rw [readTree, phrase, Phrase.tree_array (items.flat_phrase.grouped _) hlevel,
    Phrase.tree_grouped items.flat_phrase]
  rfl

theorem readTree_allOf_singleton (s : Schema) : (allOf [s]).readTree = s.readTree :=
  s.readTree_memberPhrase

theorem typeTree_allOf_singleton (s : Schema) : (allOf [s]).typeTree = s.typeTree :=
  s.flat_typeTree.combine_singleton _

theorem two_le_operandsOf_combine {operator : TypeOperator} {schemas : List Schema}
    {tree : Schema → TypeExpr} (htree : ∀ s ∈ schemas, (tree s).Flat) (h : 2 ≤ schemas.length) :
    2 ≤ (operandsOf operator (combine operator (schemas.map tree))).length := by
  have hflat : ∀ t ∈ schemas.map tree, t.Flat := by simpa using htree
  have hne : schemas.map tree ≠ [] := by
    rw [Ne, List.map_eq_nil_iff]
    rintro rfl
    simp at h
  have hlength := length_le_operandsOf operator hflat
  rw [operandsOf_combine operator hflat hne]
  rw [List.length_map] at hlength
  omega

theorem two_le_union_typeTree {s : Schema} (h : s.isCompound false) :
    2 ≤ (operandsOf .union s.typeTree).length := by
  induction s with
  | primitive => simp [isCompound] at h
  | literal => simp [isCompound] at h
  | shape => simp [isCompound] at h
  | arrayOf => simp [isCompound] at h
  | mapOf => simp [isCompound] at h
  | allOf => simp [isCompound] at h
  | anyOf variants ih =>
    have hlength : 1 < variants.length := by simpa [isCompound] using h
    rw [typeTree, typeTrees_eq_map]
    exact two_le_operandsOf_combine (fun s _ => s.flat_typeTree) hlength
  | refined base predicate ih =>
    rw [isCompound] at h
    rw [typeTree]
    exact ih h

theorem two_le_intersection_typeTree {members : List Schema} (h : 2 ≤ members.length) :
    2 ≤ (operandsOf .intersection (allOf members).typeTree).length := by
  rw [typeTree, typeTrees_eq_map]
  exact two_le_operandsOf_combine (fun s _ => s.flat_typeTree) h

theorem length_union_typeTree_le (s : Schema) :
    (operandsOf .union s.typeTree).length ≤ (operandsOf .union s.readTree).length := by
  -- a missing parenthesis splits alternatives off and never merges two
  induction s with
  | primitive => exact (flat_readTree _).length_operandsOf_pos _
  | literal => exact (flat_readTree _).length_operandsOf_pos _
  | shape => exact (flat_readTree _).length_operandsOf_pos _
  | arrayOf => exact (flat_readTree _).length_operandsOf_pos _
  | mapOf => exact (flat_readTree _).length_operandsOf_pos _
  | anyOf variants ih =>
    rw [typeTree, typeTrees_eq_map, readTree_anyOf]
    exact length_operandsOf_combine_le (fun s _ => s.flat_typeTree) (fun s _ => s.flat_readTree) ih
  | allOf members ih =>
    rcases members with _ | ⟨s, _ | ⟨s', rest⟩⟩
    · exact (flat_readTree _).length_operandsOf_pos _
    · rw [typeTree_allOf_singleton, readTree_allOf_singleton]
      exact ih s (by simp)
    · rw [length_operandsOf_eq_one (by decide) (two_le_intersection_typeTree (by simp))]
      exact (flat_readTree _).length_operandsOf_pos _
  | refined base predicate ih =>
    rw [typeTree, readTree, phrase]
    exact ih

theorem length_intersection_member_le {s : Schema} (h : s.memberLevel ≠ .union)
    (hs : s.level ≠ .union → (operandsOf .intersection s.typeTree).length ≤
      (operandsOf .intersection s.readTree).length) :
    (operandsOf .intersection s.typeTree).length ≤
      (operandsOf .intersection s.readTree).length := by
  rcases memberLevel_ne_union.1 h with hcompound | hlevel
  · rw [length_operandsOf_eq_one (by decide) (two_le_union_typeTree hcompound)]
    exact s.flat_readTree.length_operandsOf_pos _
  · exact hs hlevel

theorem length_intersection_typeTree_le {s : Schema} (h : s.level ≠ .union) :
    (operandsOf .intersection s.typeTree).length ≤
      (operandsOf .intersection s.readTree).length := by
  induction s with
  | primitive => exact (flat_readTree _).length_operandsOf_pos _
  | literal => exact (flat_readTree _).length_operandsOf_pos _
  | shape => exact (flat_readTree _).length_operandsOf_pos _
  | arrayOf => exact (flat_readTree _).length_operandsOf_pos _
  | mapOf => exact (flat_readTree _).length_operandsOf_pos _
  | anyOf variants ih =>
    rw [level, variantLevels_eq_map] at h
    rw [typeTree, typeTrees_eq_map, readTree_anyOf]
    rcases variants with _ | ⟨s, _ | ⟨s', rest⟩⟩
    · exact Nat.le_refl _
    · simp only [List.map_cons, List.map_nil, s.flat_typeTree.combine_singleton,
        s.flat_readTree.combine_singleton]
      exact ih s (by simp) h
    · exact absurd (Level.joined_union_of_two_le (by simp)) h
  | allOf members ih =>
    rw [level, memberLevels_eq_map, Level.joined_intersection_ne_union, List.forall_mem_map] at h
    rw [typeTree, typeTrees_eq_map, readTree_allOf h]
    exact length_operandsOf_combine_le (fun s _ => s.flat_typeTree) (fun s _ => s.flat_readTree)
      fun s hs => length_intersection_member_le (h s hs) (ih s hs)
  | refined base predicate ih =>
    rw [level] at h
    rw [typeTree, readTree, phrase]
    exact ih h

theorem readTree_arrayOf_ne {items : Schema} (hcompound : items.isCompound true = false)
    (hlevel : items.level ≠ .operand) : (arrayOf items).readTree ≠ (arrayOf items).typeTree := by
  have hphrase : (arrayOf items).phrase.level ≠ .operand := by
    rw [level_phrase, level]
    simpa [hcompound] using hlevel
  obtain ⟨operator, htwo⟩ :=
    Phrase.exists_two_le_of_level_ne_operand (flat_phrase _) hphrase
  intro heq
  change 2 ≤ (operandsOf operator (arrayOf items).readTree).length at htwo
  rw [heq] at htwo
  exact absurd htwo (by simp [typeTree, operandsOf])

theorem readTree_allOf_ne {members : List Schema} (hlength : 2 ≤ members.length)
    (h : ¬∀ s ∈ members, s.memberLevel ≠ .union) :
    (allOf members).readTree ≠ (allOf members).typeTree := by
  have hphrase : (allOf members).phrase.level = .union := by
    rw [level_phrase, level, memberLevels_eq_map]
    by_contra hne
    rw [← Ne, Level.joined_intersection_ne_union, List.forall_mem_map] at hne
    exact h hne
  have htwo := Phrase.two_le_of_level_eq_union (flat_phrase _) hphrase
  have hone := @length_operandsOf_eq_one _ .intersection .union (by decide)
    (two_le_intersection_typeTree hlength)
  intro heq
  change 2 ≤ (operandsOf .union (allOf members).readTree).length at htwo
  rw [heq] at htwo
  omega

theorem readTree_shape (fields : List Field) : (shape fields).readTree =
    .object ((Field.declared fields).map fun f => (f.name, f.optional, f.schema.readTree)) := by
  rw [readTree, phrase, fieldPhrases_eq_map]
  exact Phrase.tree_ofOperand (t := .object _) trivial

theorem readTree_eq_typeTree_iff (s : Schema) : s.readTree = s.typeTree ↔ s.WellGrouped := by
  induction s with
  | primitive kind => exact iff_of_true rfl (.primitive kind)
  | literal value => exact iff_of_true rfl (.literal value)
  | shape fields ih =>
    rw [readTree_shape, typeTree, fieldTrees_eq_map, TypeExpr.object.injEq, List.map_inj_left]
    constructor
    · intro h
      refine .shape fun f hf hmeta => (ih f hf).1 ?_
      simpa using h f (mem_declared.2 ⟨hf, hmeta⟩)
    · rintro ⟨⟩ f hf
      rename_i h
      obtain ⟨hf, hmeta⟩ := mem_declared.1 hf
      rw [(ih f hf).2 (h f hf hmeta)]
  | arrayOf items ih =>
    by_cases hgrouped : items.isCompound true ∨ items.level = .operand
    · rw [readTree_arrayOf hgrouped, typeTree, TypeExpr.array.injEq, ih]
      constructor
      · exact fun h => .arrayOf h hgrouped
      · rintro ⟨⟩
        assumption
    · apply iff_of_false
      · simp only [not_or, Bool.not_eq_true] at hgrouped
        exact readTree_arrayOf_ne hgrouped.1 hgrouped.2
      · rintro ⟨⟩
        contradiction
  | mapOf values ih =>
    have hread : (mapOf values).readTree = .record values.readTree :=
      Phrase.tree_ofOperand (t := .record values.readTree) trivial
    rw [hread, typeTree, TypeExpr.record.injEq, ih]
    constructor
    · exact .mapOf
    · rintro ⟨⟩
      assumption
  | anyOf variants ih =>
    rw [readTree_anyOf, typeTree, typeTrees_eq_map,
      combine_map_inj (fun s _ => s.flat_typeTree) (fun s _ => s.flat_readTree)
        fun s _ => s.length_union_typeTree_le]
    constructor
    · exact fun h => .anyOf fun s hs => (ih s hs).1 (h s hs)
    · rintro ⟨⟩ s hs
      rename_i h
      exact (ih s hs).2 (h s hs)
  | allOf members ih =>
    by_cases hgrouped : ∀ s ∈ members, s.memberLevel ≠ .union
    · rw [readTree_allOf hgrouped, typeTree, typeTrees_eq_map,
        combine_map_inj (fun s _ => s.flat_typeTree) (fun s _ => s.flat_readTree)
          fun s hs => length_intersection_member_le (hgrouped s hs) length_intersection_typeTree_le]
      constructor
      · intro h
        refine .allOf (fun s hs => (ih s hs).1 (h s hs)) (.inr fun s hs => ?_)
        exact memberLevel_ne_union.1 (hgrouped s hs)
      · rintro ⟨⟩ s hs
        rename_i h _
        exact (ih s hs).2 (h s hs)
    · rcases members with _ | ⟨s, _ | ⟨s', rest⟩⟩
      · exact absurd (by simp) hgrouped
      · rw [readTree_allOf_singleton, typeTree_allOf_singleton, ih s (by simp)]
        constructor
        · exact fun h => .allOf (by simpa using h) (.inl (by simp))
        · rintro ⟨⟩
          rename_i h _
          exact h s (by simp)
      · apply iff_of_false
        · exact readTree_allOf_ne (by simp) hgrouped
        · rintro ⟨⟩
          rename_i _ h
          rcases h with h | h
          · simp at h
          · exact hgrouped fun s hs => memberLevel_ne_union.2 (h s hs)
  | refined base predicate ih =>
    rw [typeTree, readTree, phrase]
    refine ih.trans ⟨.refined, ?_⟩
    rintro ⟨⟩
    assumption

inductive NoSingletons : Schema → Prop
  | primitive (kind : Primitive) : NoSingletons (.primitive kind)
  | literal (value : Literal) : NoSingletons (.literal value)
  | shape {fields : List Field} (h : ∀ f ∈ fields, NoSingletons f.schema) :
      NoSingletons (.shape fields)
  | arrayOf {items : Schema} (h : NoSingletons items) : NoSingletons (.arrayOf items)
  | mapOf {values : Schema} (h : NoSingletons values) : NoSingletons (.mapOf values)
  | anyOf {variants : List Schema} (h : ∀ s ∈ variants, NoSingletons s)
      (hlength : variants.length ≠ 1) : NoSingletons (.anyOf variants)
  | allOf {members : List Schema} (h : ∀ s ∈ members, NoSingletons s)
      (hlength : members.length ≠ 1) : NoSingletons (.allOf members)
  | refined {base : Schema} {predicate : Option Predicate} (h : NoSingletons base) :
      NoSingletons (.refined base predicate)

theorem NoSingletons.recognised {s : Schema} (h : s.NoSingletons) :
    (s.isCompound true ∨ s.level = .operand) ∧ (s.isCompound false ∨ s.level ≠ .union) := by
  have hoperand {s : Schema} (h : s.level = .operand) :
      (s.isCompound true ∨ s.level = .operand) ∧ (s.isCompound false ∨ s.level ≠ .union) :=
    ⟨.inr h, .inr (by simp [h])⟩
  induction h with
  | primitive => exact hoperand rfl
  | literal => exact hoperand rfl
  | shape => exact hoperand rfl
  | mapOf => exact hoperand rfl
  | arrayOf _ ih =>
    apply hoperand
    rw [level]
    rcases ih.1 with h | h <;> simp [h]
  | @anyOf variants _ hlength _ =>
    match variants, hlength with
    | [], _ => exact hoperand rfl
    | _ :: _ :: _, _ => simp [isCompound]
  | @allOf members _ hlength ih =>
    match members, hlength, ih with
    | [], _, _ => exact hoperand rfl
    | s :: s' :: rest, _, ih =>
      refine ⟨.inl (by simp [isCompound]), .inr ?_⟩
      rw [level, memberLevels_eq_map, Level.joined_intersection_ne_union, List.forall_mem_map]
      exact fun s hs => memberLevel_ne_union.2 (ih s hs).2
  | refined _ ih =>
    rw [isCompound, isCompound, level]
    exact ih

theorem NoSingletons.wellGrouped {s : Schema} (h : s.NoSingletons) : s.WellGrouped := by
  induction h with
  | primitive kind => exact .primitive kind
  | literal value => exact .literal value
  | shape _ ih => exact .shape fun f hf _ => ih f hf
  | arrayOf h ih => exact .arrayOf ih h.recognised.1
  | mapOf _ ih => exact .mapOf ih
  | anyOf _ _ ih => exact .anyOf ih
  | allOf h _ ih => exact .allOf ih (.inr fun s hs => (h s hs).recognised.2)
  | refined _ ih => exact .refined ih

/-- Every type text is well formed, and it reads as the type of the schema exactly if the schema is
well grouped. Without unions and intersections of one type it always is. -/
theorem typeText_reads_as_typeTree_iff (s : Schema) (h : s.PlainNames) :
    (∃ t, parse? s.typeText = some t ∧ (t = s.typeTree ↔ s.WellGrouped)) ∧
      (s.NoSingletons → s.WellGrouped) :=
  ⟨⟨s.readTree, (spells_typeText h).parse?, s.readTree_eq_typeTree_iff⟩, NoSingletons.wellGrouped⟩

theorem typeText_reads_as_typeTree_of_quoted_key :
    let items : Schema := .refined (.anyOf [.null, .literal (.string "x")]) none
    let s : Schema := .shape [⟨"a \"b\"", true, .arrayOf items⟩]
    s.PlainNames ∧ s.NoSingletons ∧ ∃ t, parse? s.typeText = some t ∧ t = s.typeTree := by
  intro items s
  have hname : isPlainName "a \"b\"" := rfl
  have hplain : s.PlainNames := by
    refine .shape (by simpa using fun _ => hname) ?_
    simpa using fun _ => .arrayOf (.refined (.anyOf (by simpa using ⟨.primitive _, .literal _⟩)))
  have hsingle : s.NoSingletons := by
    refine .shape ?_
    simpa using .arrayOf (.refined (.anyOf (by simpa using ⟨.primitive _, .literal _⟩) (by decide)))
  obtain ⟨⟨t, hparse, hiff⟩, hgrouped⟩ := typeText_reads_as_typeTree_iff s hplain
  exact ⟨hplain, hsingle, t, hparse, hiff.2 (hgrouped hsingle)⟩

theorem typeText_of_nested_union :
    let s : Schema := .arrayOf (.anyOf [.anyOf [.string, .number]])
    s.typeText = "string | number[]" ∧
      parse? s.typeText =
        some (.compound .union [.primitive .string, .array (.primitive .number)]) ∧
      s.typeTree = .array (.compound .union [.primitive .string, .primitive .number]) := by
  refine ⟨?_, ?_, ?_⟩
  · cbv
  · cbv
  · cbv

end Schema

end ApiContract
