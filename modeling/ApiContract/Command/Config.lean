import ApiContract.Command.Files
import ApiContract.Endpoint.Basic
import ApiContract.Log
import ApiContract.Text.Blank
import ApiContract.Yaml.Value

namespace ApiContract

structure Config where
  strict : Option Bool := none
  flavor : Option Flavor := none
  output : Option String := none
  deriving DecidableEq

namespace Config

def mode (c : Config) (lenient : Bool) : Mode :=
  if lenient then .lenient else if c.strict.getD true then .strict else .lenient

open Yaml (Document Node Expansion)

def optional (read : Node → Expansion α) (node : Node) : Expansion (Option α) :=
  match node with
  | .scalar none .plain text =>
    if text.isEmpty || Yaml.isNull text then pure none else some <$> read node
  | .scalar (some tag) .plain text =>
    if tag = Yaml.Tag.core "null" then
      if Yaml.isNull text then pure none else failure
    else
      some <$> read node
  | _ => some <$> read node

def readBool : Node → Expansion Bool
  | .scalar tag style text =>
    if style = .plain ∨ (style = .literal ∧ tag = some (Yaml.Tag.core "bool")) then
      (Yaml.toBool? text : Option Bool)
    else
      failure
  | _ => failure

def readText : Node → Expansion String
  | .scalar _ _ text => pure text
  | _ => failure

/-- A flavor is the text of a scalar, or a local tag on an empty or null one. -/
def readFlavor : Node → Expansion Flavor
  | .scalar tag style text =>
    match tag.bind Yaml.Tag.customName? with
    | some name =>
      if style = .plain ∧ (text.isEmpty ∨ Yaml.isNull text) then Flavor.ofName? name else failure
    | none => Flavor.ofName? text
  | _ => failure

def add (d : Document) (seen : List String × Config) (entry : Node × Node) :
    Expansion (List String × Config) := do
  let (keys, c) := seen
  let key ← d.keyText entry.1
  if keys.contains key then failure
  let value ← d.expand entry.2
  let c ← match key with
    | "strict" => do pure { c with strict := ← optional readBool value }
    | "flavor" => do pure { c with flavor := ← optional readFlavor value }
    | "output" => do pure { c with output := ← optional readText value }
    | _ => failure
  return (key :: keys, c)

def ofDocument (d : Document) : Expansion Config := do
  match ← d.expand d.root with
  | .mapping _ entries => return (← entries.foldlM (add d) ([], {})).2
  | .scalar _ .plain "" => return {}
  | _ => failure

def parse? (text : String) : Option Config := do
  let d ← Document.parse? text
  let (c, _) ← (ofDocument d).run 0
  return c

def optionText (valueText : α → String) : Option α → String
  | none => "None"
  | some a => "Some(" ++ valueText a ++ ")"

def text (c : Config) : String :=
  "CliConfig \x7b strict: " ++ optionText (fun b => if b then "true" else "false") c.strict ++
    ", flavor: " ++ optionText (fun | .untyped => "Untyped" | .typed => "Typed") c.flavor ++
    ", output: " ++ optionText Text.quoted c.output ++ " \x7d"

def loadedEvent (path : String) (c : Config) : LogEvent :=
  ⟨.debug, "loaded config", [("path", path), ("config", c.text)]⟩

/-- Loads the configuration at a path, with the events to log. A file of white space only gives the
defaults. -/
def load [Monad m] [FileAccess m] : Option String → m (List LogEvent × Except String Config)
  | none => return ([], .ok {})
  | some path => do
    match ← FileAccess.read path with
    | .error e => return ([], .error ("failed to read config file: " ++ path ++ ": " ++ e.message))
    | .ok content =>
      if Text.allBlank content then
        return ([], .ok {})
      else
        match parse? content with
        | some c => return ([c.loadedEvent path], .ok c)
        | none => return ([], .error ("failed to parse config YAML: " ++ path))

end Config

end ApiContract
