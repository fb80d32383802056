import ApiContract.Schema.Basic

namespace ApiContract.Schema

/-- Whether the type is a union, or with `intersections` also an intersection, of at least two
types. -/
def isCompound (intersections : Bool) : Schema → Bool
  | .refined base _ => base.isCompound intersections
  | .anyOf variants => 1 < variants.length
  | .allOf members => intersections && 1 < members.length
  | _ => false

def grouped (compound : Bool) (type : String) : String :=
  if compound then "(" ++ type ++ ")" else type

def joined (operator : String) (types : List String) : String :=
  if types.isEmpty then "never" else operator.intercalate types

mutual

def typeText : Schema → String
  | .primitive p => p.name
  | .literal l => l.toJson.text
  | .shape fields =>
    let members := fieldTexts fields
    if members.isEmpty then "\x7b\x7d" else "\x7b " ++ "; ".intercalate members ++ " \x7d"
  | .arrayOf items => grouped (items.isCompound true) items.typeText ++ "[]"
  | .mapOf values => "Record<string, " ++ values.typeText ++ ">"
  | .anyOf variants => joined " | " (variantTexts variants)
  | .allOf members => joined " & " (memberTexts members)
  | .refined base _ => base.typeText
termination_by structural s => s

def fieldTexts : List Field → List String
  | [] => []
  | ⟨name, optional, schema⟩ :: rest =>
    if Identifier.isMeta name then
      fieldTexts rest
    else
      (Identifier.keyText name ++ (if optional then "?: " else ": ") ++ schema.typeText) ::
        fieldTexts rest
termination_by structural fields => fields

def variantTexts : List Schema → List String
  | [] => []
  | s :: rest => s.typeText :: variantTexts rest
termination_by structural variants => variants

def memberTexts : List Schema → List String
  | [] => []
  | s :: rest => grouped (s.isCompound false) s.typeText :: memberTexts rest
termination_by structural members => members

end

end ApiContract.Schema
