import ApiContract.Proofs.Lists
import ApiContract.Proofs.Schema.Footprint
import ApiContract.Proofs.Schema.Naming

/-!
Where the declared names come from. A schema passes its value on through refinements, unions and
intersections until it comes to shapes. The names that those declare, in the order in which a walk
from left to right meets them and each where it is met first, are the declared names, although
repetitions are left out on every level and not once at the end.
-/

namespace ApiContract.Schema

mutual

/-- The shapes that a value is passed on to, from left to right. -/
def leaves : Schema → List (List Field)
  | .shape fields => [fields]
  | .refined base _ => base.leaves
  | .anyOf variants => leavesList variants
  | .allOf members => leavesList members
  | _ => []
termination_by structural s => s

def leavesList : List Schema → List (List Field)
  | [] => []
  | s :: rest => s.leaves ++ leavesList rest
termination_by structural schemas => schemas

end

def metNames (s : Schema) : List String :=
  s.leaves.flatMap fun fields => (Field.names fields).filter (!Identifier.isMeta ·)

theorem leavesList_eq_flatMap (schemas : List Schema) :
    leavesList schemas = schemas.flatMap leaves := by
  induction schemas with
  | nil => rfl
  | cons s rest ih => rw [leavesList, ih, List.flatMap_cons]

theorem metNames_shape (fields : List Field) :
    (Schema.shape fields).metNames = Field.names (Field.declared fields) := by
  rw [metNames, leaves, List.flatMap_singleton, Field.names, List.filter_map, Field.names,
    Field.declared]
  rfl

theorem metNames_anyOf (variants : List Schema) :
    (Schema.anyOf variants).metNames = variants.flatMap metNames := by
  simp only [metNames, leaves, leavesList_eq_flatMap, List.flatMap_assoc]
  rfl

theorem metNames_allOf (members : List Schema) :
    (Schema.allOf members).metNames = members.flatMap metNames := by
  simp only [metNames, leaves, leavesList_eq_flatMap, List.flatMap_assoc]
  rfl

theorem mem_leaves_step {s : Schema} {fields : List Field} :
    fields ∈ s.leaves ↔ s = .shape fields ∨ ∃ t ∈ facets s, fields ∈ t.leaves := by
  cases s <;> simp [leaves, leavesList_eq_flatMap, facets, eq_comm]

theorem mem_leaves_iff {s : Schema} {fields : List Field} :
    fields ∈ s.leaves ↔ Reaches facets s (.shape fields) := by
  induction s using facet_induction with
  | step s ih =>
    rw [mem_leaves_step, reaches_iff]
    apply or_congr_right
    apply exists_congr
    intro t
    exact and_congr_right (ih t)

theorem mem_metNames_iff {s : Schema} {name : String} :
    name ∈ s.metNames ↔ ∃ fields, Reaches facets s (.shape fields) ∧
      ∃ f ∈ fields, f.isMeta = false ∧ f.name = name := by
  simp only [metNames, List.mem_flatMap, mem_leaves_iff, List.mem_filter, Field.names, List.mem_map]
  apply exists_congr
  intro fields
  apply and_congr_right
  intro _
  constructor
  · rintro ⟨⟨f, hf, rfl⟩, hmeta⟩
    exact ⟨f, hf, by simpa [Field.isMeta] using hmeta, rfl⟩
  · rintro ⟨f, hf, hmeta, rfl⟩
    exact ⟨⟨f, hf, rfl⟩, by simpa [Field.isMeta] using hmeta⟩

theorem WellNamed.declaredNames_eq {s : Schema} (h : s.WellNamed) :
    s.declaredNames = s.metNames.eraseDups := by
  have flatten {schemas : List Schema}
      (ih : ∀ s ∈ schemas, s.declaredNames = s.metNames.eraseDups) :
      (declaredNamesList schemas).eraseDups = (schemas.flatMap metNames).eraseDups := by
    rw [declaredNamesList_eq_flatMap, List.flatMap_congr ih, eraseDups_flatMap_eraseDups]
  induction h with
  | primitive | literal | arrayOf | mapOf => rfl
  | @shape fields hnames =>
    have hdeclared : (Field.names (Field.declared fields)).Nodup :=
      (List.filter_sublist.map _).nodup hnames
    rw [metNames_shape, eraseDups_of_nodup hdeclared, declaredNames]
  | anyOf _ ih => rw [declaredNames, metNames_anyOf, flatten ih]
  | allOf _ ih => rw [declaredNames, metNames_allOf, flatten ih]
  | refined _ ih => exact ih

/-- If names are distinct in every shape, the declared names are the names met from left to right
with repetitions removed: distinct, none of them a meta name, and each at its first occurrence. -/
theorem declaredNames_keeps_first_occurrences {s : Schema} (h : s.WellNamed) :
    s.declaredNames = s.metNames.eraseDups ∧
      s.declaredNames.Nodup ∧
      (∀ name ∈ s.declaredNames, Identifier.isMeta name = false) ∧
      (∀ before name after, s.metNames = before ++ name :: after → name ∉ before →
        ∃ rest, s.declaredNames = before.eraseDups ++ name :: rest) ∧
      ∀ name, name ∈ s.declaredNames ↔ ∃ fields, Reaches facets s (.shape fields) ∧
        ∃ f ∈ fields, f.isMeta = false ∧ f.name = name := by
  rw [h.declaredNames_eq]
  refine ⟨rfl, nodup_eraseDups _, ?_, ?_, ?_⟩
  · intro name hname
    exact not_isMeta_of_mem_declaredNames (h.declaredNames_eq ▸ hname)
  · intro before name after hmet hname
    rw [hmet]
    exact eraseDups_of_first hname
  · intro name
    rw [List.mem_eraseDups]
    exact mem_metNames_iff

theorem declaredNames_keeps_first_occurrences_nested :
    let a : Field := ⟨"a", false, .string⟩
    let b : Field := ⟨"b", true, .shape [⟨"c", false, .null⟩]⟩
    let note : Field := ⟨"$note", false, .string⟩
    let s : Schema := .allOf [.anyOf [.shape [note, b], .refined (.shape [a, b]) none],
      .mapOf (.shape [⟨"d", false, .null⟩]), .shape [⟨"e", false, .null⟩, a]]
    s.WellNamed ∧ s.metNames = ["b", "a", "b", "e", "a"] ∧ s.declaredNames = ["b", "a", "e"] := by
  intro a b note s
  have h : s.WellNamed := by
    have hb : b.schema.WellNamed := .shape (by decide) (List.forall_mem_singleton.2 .primitive)
    have hnoted : (Schema.shape [note, b]).WellNamed :=
      .shape (by decide) (by simp [note, string, WellNamed.primitive, hb])
    have hboth : (Schema.shape [a, b]).WellNamed :=
      .shape (by decide) (by simp [a, string, WellNamed.primitive, hb])
    apply WellNamed.allOf
    simp only [List.forall_mem_cons]
    refine ⟨.anyOf ?_, .mapOf ?_, ?_, List.forall_mem_nil _⟩
    · exact List.forall_mem_cons.2 ⟨hnoted, List.forall_mem_singleton.2 (.refined hboth)⟩
    · exact .shape (by decide) (List.forall_mem_singleton.2 .primitive)
    · exact .shape (by decide) (by simp [a, null, string, WellNamed.primitive])
  have hmet : s.metNames = ["b", "a", "b", "e", "a"] := by cbv
  refine ⟨h, hmet, ?_⟩
  rw [(declaredNames_keeps_first_occurrences h).1, hmet]
  rfl

end ApiContract.Schema
