import ApiContract.Proofs.TypeText.Phrase
import ApiContract.Schema.TypeText

namespace ApiContract.Schema

open TypeText

mutual

def phrase : Schema → Phrase
  | .primitive p => .ofOperand (.primitive p)
  | .literal l => .ofOperand (.literal l)
  | .shape fields => .ofOperand (.object (fieldPhrases fields))
  | .arrayOf items => (items.phrase.grouped (items.isCompound true)).array
  | .mapOf values => .ofOperand (.record values.phrase.tree)
  | .anyOf variants => Phrase.joined Phrase.or (variantPhrases variants)
  | .allOf members => Phrase.joined Phrase.and (memberPhrases members)
  | .refined base _ => base.phrase
termination_by structural s => s

def fieldPhrases : List Field → List (String × Bool × TypeExpr)
  | [] => []
  | ⟨name, optional, schema⟩ :: rest =>
    if Identifier.isMeta name then
      fieldPhrases rest
    else
      (name, optional, schema.phrase.tree) :: fieldPhrases rest
termination_by structural fields => fields

def variantPhrases : List Schema → List Phrase
  | [] => []
  | s :: rest => s.phrase :: variantPhrases rest
termination_by structural variants => variants

def memberPhrases : List Schema → List Phrase
  | [] => []
  | s :: rest => s.phrase.grouped (s.isCompound false) :: memberPhrases rest
termination_by structural members => members

end

def memberPhrase (s : Schema) : Phrase :=
  s.phrase.grouped (s.isCompound false)

theorem variantPhrases_eq_map (variants : List Schema) :
    variantPhrases variants = variants.map phrase := by
  induction variants with
  | nil => rfl
  | cons s rest ih => rw [variantPhrases, ih, List.map_cons]

theorem memberPhrases_eq_map (members : List Schema) :
    memberPhrases members = members.map memberPhrase := by
  induction members with
  | nil => rfl
  | cons s rest ih => rw [memberPhrases, ih, List.map_cons, memberPhrase]

theorem variantTexts_eq_map (variants : List Schema) :
    variantTexts variants = variants.map typeText := by
  induction variants with
  | nil => rfl
  | cons s rest ih => rw [variantTexts, ih, List.map_cons]

theorem memberTexts_eq_map (members : List Schema) :
    memberTexts members = members.map fun s => grouped (s.isCompound false) s.typeText := by
  induction members with
  | nil => rfl
  | cons s rest ih => rw [memberTexts, ih, List.map_cons]

def fieldText (f : Field) : String :=
  Identifier.keyText f.name ++ (if f.optional then "?: " else ": ") ++ f.schema.typeText

theorem fieldTexts_eq_map (fields : List Field) :
    fieldTexts fields = (Field.declared fields).map fieldText := by
  induction fields with
  | nil => rfl
  | cons f rest ih =>
    obtain ⟨name, optional, schema⟩ := f
    rw [fieldTexts, ih]
    cases h : Identifier.isMeta name <;> simp [Field.declared, Field.isMeta, fieldText, h]

theorem fieldPhrases_eq_map (fields : List Field) : fieldPhrases fields =
    (Field.declared fields).map fun f => (f.name, f.optional, f.schema.phrase.tree) := by
  induction fields with
  | nil => rfl
  | cons f rest ih =>
    obtain ⟨name, optional, schema⟩ := f
    rw [fieldPhrases, ih]
    cases h : Identifier.isMeta name <;> simp [Field.declared, Field.isMeta, h]

inductive PlainNames : Schema → Prop
  | primitive (kind : Primitive) : PlainNames (.primitive kind)
  | literal (value : Literal) : PlainNames (.literal value)
  | shape {fields : List Field} (names : ∀ f ∈ fields, f.isMeta = false → isPlainName f.name)
      (schemas : ∀ f ∈ fields, f.isMeta = false → PlainNames f.schema) : PlainNames (.shape fields)
  | arrayOf {items : Schema} (h : PlainNames items) : PlainNames (.arrayOf items)
  | mapOf {values : Schema} (h : PlainNames values) : PlainNames (.mapOf values)
  | anyOf {variants : List Schema} (h : ∀ s ∈ variants, PlainNames s) : PlainNames (.anyOf variants)
  | allOf {members : List Schema} (h : ∀ s ∈ members, PlainNames s) : PlainNames (.allOf members)
  | refined {base : Schema} {predicate : Option Predicate} (h : PlainNames base) :
      PlainNames (.refined base predicate)

theorem spells_grouped {text : String} {p : Phrase} (compound : Bool) (h : Spells text.toList p) :
    Spells (grouped compound text).toList (p.grouped compound) := by
  cases compound with
  | false => exact h
  | true => simpa [grouped, Phrase.grouped] using h.group

theorem spells_joined {operator : String} {sign : Phrase → Sum}
    (hsign : ∀ {cs ds p q}, Spells cs p → Spells ds q →
      Spells (cs ++ operator.toList ++ ds) ((sign p).followedBy q))
    {schemas : List Schema} {text : Schema → String} {phrase : Schema → Phrase}
    (h : ∀ s ∈ schemas, Spells (text s).toList (phrase s)) :
    Spells (joined operator (schemas.map text)).toList
      (Phrase.joined sign (schemas.map phrase)) := by
  induction schemas with
  | nil => exact spells_never
  | cons s rest ih =>
    have hs := h s (by simp)
    have hrest := ih fun s hs => h s (by simp [hs])
    cases rest with
    | nil => simpa [joined, Phrase.joined] using hs
    | cons s' rest => simpa [joined, Phrase.joined] using hsign hs hrest

theorem spellsFields_map {fields : List Field} (hne : fields ≠ [])
    (h : ∀ f ∈ fields, isPlainName f.name ∧ Spells f.schema.typeText.toList f.schema.phrase) :
    SpellsFields (("; ".intercalate (fields.map fieldText)).toList ++ " \x7d".toList)
      (fields.map fun f => (f.name, f.optional, f.schema.phrase.tree)) := by
  induction fields with
  | nil => exact absurd rfl hne
  | cons f rest ih =>
    obtain ⟨hname, hschema⟩ := h f (by simp)
    have hfield := hschema.field hname f.optional
    cases rest with
    | nil => simpa [fieldText] using hfield.last
    | cons g rest =>
      have hrest := ih (by simp) fun f hf => h f (by simp [hf])
      simpa [fieldText] using hfield.cons hrest

theorem spells_typeText {s : Schema} (h : s.PlainNames) : Spells s.typeText.toList s.phrase := by
  induction s with
  | primitive kind => exact spells_primitive kind
  | literal value => exact spells_literal value
  | shape fields ih =>
    cases h with
    | shape names schemas =>
    have hfields : ∀ f ∈ Field.declared fields,
        isPlainName f.name ∧ Spells f.schema.typeText.toList f.schema.phrase := by
      intro f hf
      obtain ⟨hf, hmeta⟩ := mem_declared.1 hf
      exact ⟨names f hf hmeta, ih f hf (schemas f hf hmeta)⟩
    simp only [typeText, phrase, fieldTexts_eq_map, fieldPhrases_eq_map]
    by_cases hempty : Field.declared fields = []
    · simpa [hempty] using spellsFields_nil.object
    · have hobject : SpellsFields (' ' :: _) _ := (spellsFields_map hempty hfields).blank
      simpa [hempty] using hobject.object
  | arrayOf items ih =>
    cases h with
    | arrayOf h => simpa [typeText, phrase] using (spells_grouped _ (ih h)).array
  | mapOf values ih =>
    cases h with
    | mapOf h => simpa [typeText, phrase] using (ih h).record
  | anyOf variants ih =>
    cases h with
    | anyOf h =>
    rw [typeText, phrase, variantTexts_eq_map, variantPhrases_eq_map]
    exact spells_joined Spells.or fun s hs => ih s hs (h s hs)
  | allOf members ih =>
    cases h with
    | allOf h =>
    rw [typeText, phrase, memberTexts_eq_map, memberPhrases_eq_map]
    exact spells_joined Spells.and fun s hs => spells_grouped _ (ih s hs (h s hs))
  | refined base predicate ih =>
    cases h with
    | refined h => simpa [typeText, phrase] using ih h

end ApiContract.Schema
