import ApiContract.Yaml.Node
import ApiContract.Yaml.Scalar

/-!
The value of a YAML document. Aliases are replaced by copies of what they stand for, within limits
on the depth of the value and on the number of copies.
-/

namespace ApiContract.Yaml

def isCustomTag (tag : Option Tag) : Bool :=
  (tag.bind Tag.customName?).isSome

/-- A tag decides the type of a scalar, else the absence of quotes. Local tags that are no text are
ignored. -/
def scalarValue? (tag : Option Tag) (style : Style) (text : String) : Option Json :=
  let untagged := if style = .plain then plainValue? text else some (.str text)
  match tag with
  | none => untagged
  | some tag =>
    if isCustomTag (some tag) then
      none
    else if tag = .core "bool" then
      (toBool? text).map .bool
    else if tag = .core "int" then
      match Whole.ofChars? text.toList with
      | some (.fits n) => some (.num n)
      | _ => none
    else if tag = .core "float" then
      (float? text).map ofFloat
    else if tag = .core "null" then
      if isNull text then some .null else none
    else if tag.isLocal then
      untagged
    else
      some (.str text)

abbrev Expansion := StateT Nat Option

namespace Document

def maxDepth : Nat := 128

def maxCopies (d : Document) : Nat :=
  d.events * 100

def expand (d : Document) : Node → Expansion Node
  | .alias anchor => do
    let copies := (← get) + 1
    if d.maxCopies < copies then failure
    set copies
    d.target? anchor
  | node => pure node

def keyText (d : Document) (node : Node) : Expansion String := do
  match ← d.expand node with
  | .scalar _ _ text => return text
  | _ => failure

def value (d : Document) : Nat → Node → Expansion Json
  | depth, node => do
    match depth, ← d.expand node with
    | _, .scalar tag style text => scalarValue? tag style text
    | depth + 1, .sequence tag items =>
      if isCustomTag tag then failure
      return .arr (← items.mapM (value d depth))
    | depth + 1, .mapping tag entries =>
      if isCustomTag tag then failure
      let members ← entries.mapM fun (key, v) => do
        return (← d.keyText key, ← value d depth v)
      return .object members
    | _, _ => failure

end Document

def parse? (s : String) : Option Json := do
  let d ← Document.parse? s
  let (v, _) ← (d.value Document.maxDepth d.root).run 0
  return v

end ApiContract.Yaml
