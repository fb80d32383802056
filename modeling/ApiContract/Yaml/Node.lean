import ApiContract.Yaml.Layout

namespace ApiContract.Yaml

inductive Node where
  | scalar (tag : Option Tag) (style : Style) (text : String)
  | sequence (tag : Option Tag) (items : List Node)
  | mapping (tag : Option Tag) (entries : List (Node × Node))
  | alias (anchor : Nat)

def Node.empty : Node := .scalar none .plain ""

/-- An anchored node and the number of events before it. Collections have two events, other nodes
one. -/
structure Target where
  anchor : Nat
  position : Nat
  node : Node

structure Document where
  root : Node
  targets : List Target
  events : Nat

namespace Document

def target? (d : Document) (anchor : Nat) : Option Node :=
  -- an anchor may be defined again; the last definition counts
  let latest (best : Option Target) (t : Target) : Option Target :=
    if t.anchor = anchor ∧ best.all (·.position < t.position) then some t else best
  (d.targets.foldl latest none).map (·.node)

end Document

structure Builder where
  tokens : List Token
  events : Nat := 0
  handles : List (String × Tag) := []
  anchors : List (String × Nat) := []
  targets : List Target := []

abbrev Build := StateT Builder Option

namespace Build

def peek : Build Token := do
  (← get).tokens.head?

def skip : Build Unit :=
  modify fun b => { b with tokens := b.tokens.drop 1 }

def event : Build Unit :=
  modify fun b => { b with events := b.events + 1 }

def emptyNode : Build Node := do
  event
  return .empty

def skipAndPeek : Build Token := do
  skip
  peek

/-- An anchor is numbered by the count of distinct names before it, also if its own is among
them. -/
def anchored (name : Option String) : Build (Option (Nat × Nat)) := do
  match name with
  | none => return none
  | some name =>
    let b ← get
    let number := b.anchors.length
    set { b with anchors := (name, number) :: b.anchors.filter (·.1 ≠ name) }
    return some (number, b.events)

def node (anchor : Option String) (content : Build Node) (isCollection : Bool) : Build Node := do
  let place ← anchored anchor
  event
  let node ← content
  if isCollection then event
  if let some (number, position) := place then
    modify fun b => { b with targets := ⟨number, position, node⟩ :: b.targets }
  return node

def tagName (handle : String) (suffix : Tag) : Build Tag := do
  if handle.isEmpty then
    return suffix
  else
    let some expansion := (← get).handles.lookup handle | failure
    return expansion ++ suffix

def properties : Build (Option String × Option Tag) := do
  match ← peek with
  | .anchor name =>
    match ← skipAndPeek with
    | .tag handle suffix => skip; return (some name, some (← tagName handle suffix))
    | _ => return (some name, none)
  | .tag handle suffix =>
    match ← skipAndPeek with
    | .anchor name => skip; return (some name, some (← tagName handle suffix))
    | _ => return (none, some (← tagName handle suffix))
  | _ => return (none, none)

inductive Context where
  | flow
  | block
  | blockMember
  deriving DecidableEq

mutual

/-- In all of these functions `fuel` bounds the steps. Each takes a token or is followed by one that
does, so twice the number of tokens is enough. -/
def parseNode : Nat → Context → Build Node
  | 0, _ => failure
  | fuel + 1, context => do
    if let .alias name := ← peek then
      skip
      event
      let some number := (← get).anchors.lookup name | failure
      return .alias number
    let (anchor, tag) ← properties
    match ← peek with
    | .scalar style text =>
      skip
      node anchor (pure (.scalar tag style text)) false
    | .flowSequenceStart =>
      skip
      node anchor (return .sequence tag (← flowItems fuel true)) true
    | .flowMappingStart =>
      skip
      node anchor (return .mapping tag (← flowEntries fuel true)) true
    | .blockSequenceStart =>
      if context = .flow then orEmpty anchor tag
      else
        skip
        node anchor (return .sequence tag (← blockItems fuel)) true
    | .blockMappingStart =>
      if context = .flow then orEmpty anchor tag
      else
        skip
        node anchor (return .mapping tag (← blockEntries fuel)) true
    | .blockEntry =>
      if context = .blockMember then node anchor (return .sequence tag (← looseItems fuel)) true
      else orEmpty anchor tag
    | _ => orEmpty anchor tag
where
  orEmpty (anchor : Option String) (tag : Option Tag) : Build Node := do
    if anchor.isNone && tag.isNone then failure
    node anchor (pure (.scalar tag .plain "")) false

def blockItems : Nat → Build (List Node)
  | 0 => failure
  | fuel + 1 => do
    match ← peek with
    | .blockEntry =>
      let item ← match ← skipAndPeek with
        | .blockEntry | .blockEnd => emptyNode
        | _ => parseNode fuel .block
      return item :: (← blockItems fuel)
    | .blockEnd => skip; return []
    | _ => failure

def looseItems : Nat → Build (List Node)
  | 0 => failure
  | fuel + 1 => do
    match ← peek with
    | .blockEntry =>
      let item ← match ← skipAndPeek with
        | .blockEntry | .key | .value | .blockEnd => emptyNode
        | _ => parseNode fuel .block
      return item :: (← looseItems fuel)
    | _ => return []

def blockEntries : Nat → Build (List (Node × Node))
  | 0 => failure
  | fuel + 1 => do
    match ← peek with
    | .key =>
      skip
      let key ← blockMember fuel
      let value ← match ← peek with
        | .value => skip; blockMember fuel
        | _ => emptyNode
      return (key, value) :: (← blockEntries fuel)
    | .blockEnd => skip; return []
    | _ => failure

def blockMember : Nat → Build Node
  | 0 => failure
  | fuel + 1 => do
    match ← peek with
    | .key | .value | .blockEnd => emptyNode
    | _ => parseNode fuel .blockMember

def flowItems : Nat → Bool → Build (List Node)
  | 0, _ => failure
  | fuel + 1, isFirst => do
    if (← peek) = .flowSequenceEnd then
      skip
      return []
    if !isFirst then
      if (← peek) ≠ .flowEntry then failure
      skip
    match ← peek with
    | .flowSequenceEnd => skip; return []
    | .key =>
      skip
      event
      let key ← match ← peek with
        | .value | .flowEntry | .flowSequenceEnd => skip; emptyNode
        | _ => parseNode fuel .flow
      let value ← flowValue fuel .flowSequenceEnd
      event
      return .mapping none [(key, value)] :: (← flowItems fuel false)
    | _ =>
      let item ← parseNode fuel .flow
      return item :: (← flowItems fuel false)

def flowEntries : Nat → Bool → Build (List (Node × Node))
  | 0, _ => failure
  | fuel + 1, isFirst => do
    if (← peek) = .flowMappingEnd then
      skip
      return []
    if !isFirst then
      if (← peek) ≠ .flowEntry then failure
      skip
    match ← peek with
    | .flowMappingEnd => skip; return []
    | .key =>
      let key ← match ← skipAndPeek with
        | .value | .flowEntry | .flowMappingEnd => emptyNode
        | _ => parseNode fuel .flow
      let value ← flowValue fuel .flowMappingEnd
      return (key, value) :: (← flowEntries fuel false)
    | _ =>
      let key ← parseNode fuel .flow
      let value ← emptyNode
      return (key, value) :: (← flowEntries fuel false)

def flowValue : Nat → Token → Build Node
  | 0, _ => failure
  | fuel + 1, closing => do
    if (← peek) = .value then
      let next ← skipAndPeek
      if next = .flowEntry || next = closing then emptyNode else parseNode fuel .flow
    else
      emptyNode

end

def defaultHandles : List (String × Tag) :=
  [("!", [0x21]), ("!!", .core "")]

def directives (hasVersion : Bool) : List Token → Build Unit
  | .versionDirective major minor :: rest => do
    if hasVersion || major ≠ 1 || (minor ≠ 1 && minor ≠ 2) then failure
    skip
    directives true rest
  | .tagDirective handle expansion :: rest => do
    let b ← get
    if (b.handles.lookup handle).isSome then failure
    set { b with handles := (handle, expansion) :: b.handles }
    skip
    directives hasVersion rest
  | .documentStart :: _ => skip
  | _ => failure

def endOfStream : List Token → Build Unit
  | .documentEnd :: rest => endOfStream rest
  | [.streamEnd] => pure ()
  | _ => failure

def document : Build (Option Node) := do
  let tokens := (← get).tokens
  let fuel := 2 * tokens.length + 2
  let addDefaults : Build Unit :=
    modify fun b => { b with handles := b.handles ++ defaultHandles }
  let root ← match tokens with
    | .streamEnd :: _ => pure none
    | .versionDirective _ _ :: _ | .tagDirective _ _ :: _ | .documentStart :: _ => do
      directives false tokens
      addDefaults
      match ← peek with
      | .versionDirective _ _ | .tagDirective _ _ | .documentStart | .documentEnd | .streamEnd =>
        some <$> emptyNode
      | _ => some <$> parseNode fuel .block
    | _ => do
      addDefaults
      some <$> parseNode fuel .block
  endOfStream (← get).tokens
  return root

end Build

def Document.parse? (s : String) : Option Document := do
  let (root, b) ← Build.document.run { tokens := ← tokens? s }
  return ⟨root.getD .empty, b.targets, max b.events 1⟩

end ApiContract.Yaml
