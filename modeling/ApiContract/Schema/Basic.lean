import ApiContract.Identifier
import ApiContract.Json.Text

/-!
Schemas: descriptions of the values that cross an interface. A shape lists the fields of an object,
a union offers variants, an intersection asks for all of its members, and a refinement adds a
predicate to the schema it is based on.
-/

namespace ApiContract

inductive Primitive where
  | string
  | number
  | boolean
  | null
  deriving DecidableEq

namespace Primitive

def all : List Primitive :=
  [.string, .number, .boolean, .null]

def name : Primitive → String
  | .string => "string"
  | .number => "number"
  | .boolean => "boolean"
  | .null => "null"

def ofName? (name : String) : Option Primitive :=
  all.find? (·.name == name)

theorem ofName?_name (p : Primitive) : ofName? p.name = some p := by
  cases p <;> decide

def admits : Primitive → Json → Bool
  | .string, .str _ => true
  | .number, .num _ => true
  | .boolean, .bool _ => true
  | .null, .null => true
  | _, _ => false

end Primitive

inductive Literal where
  | string (value : String)
  | number (value : Number)
  deriving DecidableEq

namespace Literal

def kind : Literal → String
  | .string _ => "string"
  | .number _ => "number"

def toJson : Literal → Json
  | .string s => .str s
  | .number n => .num n

def ofJson? : Json → Option Literal
  | .str s => some (.string s)
  | .num n => some (.number n)
  | _ => none

@[simp] theorem ofJson?_toJson (l : Literal) : ofJson? l.toJson = some l := by
  cases l <;> rfl

def admits : Literal → Json → Bool
  | .string s, .str t => s == t
  | .number n, .num m => n.same m
  | _, _ => false

end Literal

inductive Verdict where
  | accept
  | reject
  | error (message : String)
  deriving DecidableEq

/-- Return types of predicates. Only an explicit `false` rejects. -/
class ToVerdict (α : Type) where
  toVerdict : α → Verdict

export ToVerdict (toVerdict)

instance : ToVerdict Verdict := ⟨id⟩

instance : ToVerdict Bool := ⟨fun b => if b then .accept else .reject⟩

instance : ToVerdict Unit := ⟨fun _ => .accept⟩

instance : ToVerdict (Option Bool) := ⟨fun
  | some false => .reject
  | _ => .accept⟩

instance [ToVerdict α] : ToVerdict (Except String α) := ⟨fun
  | .ok a => toVerdict a
  | .error message => .error message⟩

/-- A test that the schema language cannot express; the label identifies it in the record of
calls. -/
structure Predicate where
  label : String
  verdict : Json → Verdict

mutual

inductive Schema where
  | primitive (kind : Primitive)
  | literal (value : Literal)
  | shape (fields : List Field)
  | arrayOf (items : Schema)
  | mapOf (values : Schema)
  | anyOf (variants : List Schema)
  | allOf (members : List Schema)
  | refined (base : Schema) (predicate : Option Predicate)

structure Field where
  name : String
  optional : Bool
  schema : Schema

end

namespace Field

def isMeta (f : Field) : Bool :=
  Identifier.isMeta f.name

def names (fields : List Field) : List String :=
  fields.map (·.name)

def declared (fields : List Field) : List Field :=
  fields.filter (!·.isMeta)

def put (field : Field) : List Field → List Field
  | [] => [field]
  | f :: rest => if f.name = field.name then field :: rest else f :: put field rest

section Put

variable {field : Field} {fields more : List Field}

@[simp] theorem names_nil : names [] = [] := rfl

@[simp] theorem names_cons : names (field :: fields) = field.name :: names fields := rfl

@[simp] theorem names_append : names (fields ++ more) = names fields ++ names more :=
  List.map_append

theorem names_put_of_mem (h : field.name ∈ names fields) :
    names (field.put fields) = names fields := by
  induction fields with
  | nil => simp at h
  | cons f rest ih =>
    rw [put]
    split
    · rename_i hname
      rw [names_cons, names_cons, hname]
    · rename_i hname
      rw [names_cons, List.mem_cons] at h
      rw [names_cons, names_cons, ih (h.resolve_left (Ne.symm hname))]

theorem put_of_not_mem (h : field.name ∉ names fields) : field.put fields = fields ++ [field] := by
  induction fields with
  | nil => rfl
  | cons f rest ih =>
    rw [names_cons, List.mem_cons, not_or] at h
    rw [put, if_neg (Ne.symm h.1), ih h.2, List.cons_append]

theorem nodup_names_put (h : (names fields).Nodup) : (names (field.put fields)).Nodup := by
  by_cases hmem : field.name ∈ names fields
  · rwa [names_put_of_mem hmem]
  · rw [put_of_not_mem hmem, names_append, names_cons, names_nil]
    refine List.nodup_append.2 ⟨h, by simp, ?_⟩
    intro name hname _ hfield
    rw [List.mem_singleton.1 hfield]
    rintro rfl
    exact hmem hname

end Put

end Field

/-- Fields of distinct names, in the order in which the names were first inserted. -/
@[ext] structure Shape where
  fields : List Field
  nodup : (Field.names fields).Nodup

namespace Shape

def empty : Shape := ⟨[], .nil⟩

def insert (shape : Shape) (field : Field) : Shape :=
  ⟨field.put shape.fields, Field.nodup_names_put shape.nodup⟩

@[simp] theorem insert_fields (shape : Shape) (field : Field) :
    (shape.insert field).fields = field.put shape.fields := rfl

def field (shape : Shape) (name : String) (schema : Schema) : Shape :=
  shape.insert ⟨name, false, schema⟩

def optional (shape : Shape) (name : String) (schema : Schema) : Shape :=
  shape.insert ⟨name, true, schema⟩

def ofList (fields : List Field) : Shape :=
  fields.foldl insert empty

def get? (shape : Shape) (name : String) : Option Field :=
  shape.fields.find? (·.name == name)

end Shape

namespace Schema

def string : Schema := .primitive .string

def number : Schema := .primitive .number

def boolean : Schema := .primitive .boolean

def null : Schema := .primitive .null

def isScalar : Schema → Bool
  | .primitive _ => true
  | .literal _ => true
  | _ => false

mutual

/-- The names that an object may have at its top level, in the order of their first declaration. -/
def declaredNames : Schema → List String
  | .shape fields => Field.names (Field.declared fields)
  | .refined base _ => base.declaredNames
  | .anyOf variants => (declaredNamesList variants).eraseDups
  | .allOf members => (declaredNamesList members).eraseDups
  | _ => []
termination_by structural s => s

def declaredNamesList : List Schema → List String
  | [] => []
  | s :: rest => s.declaredNames ++ declaredNamesList rest
termination_by structural schemas => schemas

end

end Schema

end ApiContract
