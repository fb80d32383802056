import ApiContract.Yaml.Token

/-!
The tokens of a whole YAML text. Indentation opens and closes blocks, and a scalar or a collection
turns out to be a key only when a colon follows it, so the position of every possible key is
remembered until then.
-/

namespace ApiContract.Yaml

/-- A place where a simple key may have started. A required one must turn out to be a key. -/
structure KeyPlace where
  required : Bool
  tokenNumber : Nat
  mark : Mark

def KeyPlace.isStale (k : KeyPlace) (mark : Mark) : Bool :=
  k.mark.line < mark.line || k.mark.bytes + 1024 < mark.bytes

/-- The state of the scanner: tokens newest first, and one key place for the block context and for
each open bracket, innermost first. -/
structure Layout where
  cursor : Cursor
  tokens : List Token := []
  indent : Int := -1
  outerIndents : List Int := []
  keyPlace : Option KeyPlace := none
  outerKeyPlaces : List (Option KeyPlace) := []
  keyAllowed : Bool := true

namespace Layout

def inFlow (l : Layout) : Bool :=
  !l.outerKeyPlaces.isEmpty

def push (l : Layout) (t : Token) : Layout :=
  { l with tokens := t :: l.tokens }

def insertAt (l : Layout) (number : Nat) (t : Token) : Layout :=
  { l with tokens := l.tokens.insertIdx (l.tokens.length - number) t }

def pushSkipping (l : Layout) (count : Nat) (t : Token) : Layout :=
  { l with tokens := t :: l.tokens, cursor := l.cursor.skip count }

def forgetKey (l : Layout) : Option Layout :=
  if l.keyPlace.any (·.required) then none else some { l with keyPlace := none }

def rememberKey (l : Layout) : Option Layout :=
  if l.keyAllowed then do
    let l ← l.forgetKey
    let required := !l.inFlow && l.indent = l.cursor.column
    return { l with keyPlace := some ⟨required, l.tokens.length, l.cursor.mark⟩ }
  else
    some l

def dropStaleKeys (l : Layout) : Option Layout :=
  let stale (k : KeyPlace) : Bool := k.isStale l.cursor.mark
  let places := l.keyPlace :: l.outerKeyPlaces
  if places.any (·.any fun k => stale k && k.required) then
    none
  else
    some { l with
      keyPlace := l.keyPlace.filter (!stale ·)
      outerKeyPlaces := l.outerKeyPlaces.map (·.filter (!stale ·)) }

def openBlock (l : Layout) (column : Nat) (number : Nat) (t : Token) : Layout :=
  if !l.inFlow && l.indent < column then
    { l.insertAt number t with indent := column, outerIndents := l.indent :: l.outerIndents }
  else
    l

def closeBlocks (l : Layout) (column : Int) : Layout :=
  if l.inFlow then l else go l.outerIndents l
where
  go : List Int → Layout → Layout
    | [], l => l
    | outer :: rest, l =>
      if column < l.indent then
        go rest { l.push .blockEnd with indent := outer, outerIndents := rest }
      else
        l

/-- Skips blanks, comments, line breaks, and a byte order mark at the start of a line. A line break
outside of brackets allows a key, and tabs are no blanks where a key is allowed. -/
def skipFiller (inFlow keyAllowed inComment : Bool) (mark : Mark) : List Char → Bool × Cursor
  | [] => (keyAllowed, ⟨[], mark⟩)
  | '\r' :: '\n' :: rest => skipFiller inFlow (keyAllowed || !inFlow) false mark.nextLine rest
  | c :: rest =>
    if isBreak c then
      skipFiller inFlow (keyAllowed || !inFlow) false mark.nextLine rest
    else if inComment || c = ' ' || (c = '\t' && (inFlow || !keyAllowed)) ||
        (c = byteOrderMark && mark.column = 0) then
      skipFiller inFlow keyAllowed inComment (mark.next c) rest
    else if c = '#' then
      skipFiller inFlow keyAllowed true (mark.next c) rest
    else
      (keyAllowed, ⟨c :: rest, mark⟩)

def endBlocks (l : Layout) : Option Layout := do
  let l ← (l.closeBlocks (-1)).forgetKey
  return { l with keyAllowed := false }

def scalar (l : Layout) (read : Cursor → Option (Token × Cursor)) : Option Layout := do
  let l ← l.rememberKey
  let (t, c) ← read l.cursor
  return { l.push t with keyAllowed := false, cursor := c }

def plainScalar (l : Layout) : Option Layout := do
  let l ← l.rememberKey
  let (f, c) ← plainText l.inFlow (l.indent + 1) {} l.cursor.mark l.cursor.rest
  return { l.push (.scalar .plain f.result) with keyAllowed := f.broken, cursor := c }

def blockScalar (l : Layout) (literal : Bool) : Option Layout := do
  let l ← l.forgetKey
  let (t, c) ← block? literal l.indent l.cursor
  return { l.push t with keyAllowed := true, cursor := c }

def anchorToken (l : Layout) (token : String → Token) : Option Layout :=
  l.scalar fun c => (anchorName? c).map fun (name, c) => (token name, c)

def openBracket (l : Layout) (t : Token) : Option Layout := do
  let l ← l.rememberKey
  return { l.pushSkipping 1 t with
    keyPlace := none
    outerKeyPlaces := l.keyPlace :: l.outerKeyPlaces
    keyAllowed := true }

def closeBracket (l : Layout) (t : Token) : Option Layout := do
  let l ← l.forgetKey
  let (keyPlace, outer) := match l.outerKeyPlaces with
    | [] => (l.keyPlace, [])
    | k :: rest => (k, rest)
  return { l.pushSkipping 1 t with keyPlace, outerKeyPlaces := outer, keyAllowed := false }

def flowEntry (l : Layout) : Option Layout := do
  let l ← l.forgetKey
  return { l.pushSkipping 1 .flowEntry with keyAllowed := true }

def blockIndicator (l : Layout) (opening t : Token) : Option Layout := do
  if !l.inFlow && !l.keyAllowed then failure
  let l := l.openBlock l.cursor.column l.tokens.length opening
  return l.pushSkipping 1 t

def blockEntry (l : Layout) : Option Layout := do
  let l ← l.blockIndicator .blockSequenceStart .blockEntry
  let l ← l.forgetKey
  return { l with keyAllowed := true }

def explicitKey (l : Layout) : Option Layout := do
  let l ← l.blockIndicator .blockMappingStart .key
  let l ← l.forgetKey
  return { l with keyAllowed := !l.inFlow }

def value (l : Layout) : Option Layout :=
  match l.keyPlace with
  | some k =>
    let l := l.insertAt k.tokenNumber .key
    let l := l.openBlock k.mark.column k.tokenNumber .blockMappingStart
    some { l.pushSkipping 1 .value with keyPlace := none, keyAllowed := false }
  | none => do
    let l ← l.blockIndicator .blockMappingStart .value
    return { l with keyAllowed := !l.inFlow }

def startsPlain (inFlow : Bool) : List Char → Bool
  | [] => false
  | c :: rest =>
    if c = '-' then !rest.head?.any isBlank
    else if c = '?' ∨ c = ':' then !inFlow && !endsWord rest
    else
      !(isBlank c || isBreak c || [',', '[', ']', '{', '}', '#', '&', '*', '!', '|', '>', '\'', '"',
        '%', '@', '\x60'].contains c)

def documentMarker (l : Layout) (t : Token) : Option Layout := do
  return (← l.endBlocks).pushSkipping 3 t

def directive (l : Layout) : Option Layout := do
  let l ← l.endBlocks
  let (t, c) ← directive? l.cursor
  return { l.push t with cursor := c }

def token (l : Layout) : Option Layout :=
  let rest := l.cursor.rest
  let atStart := l.cursor.column = 0
  if atStart && rest.head? = some '%' then
    l.directive
  else if atStart && isDocumentMarker rest then
    l.documentMarker (if rest.head? = some '-' then .documentStart else .documentEnd)
  else
    match rest with
    | '[' :: _ => l.openBracket .flowSequenceStart
    | '{' :: _ => l.openBracket .flowMappingStart
    | ']' :: _ => l.closeBracket .flowSequenceEnd
    | '}' :: _ => l.closeBracket .flowMappingEnd
    | ',' :: _ => l.flowEntry
    | '*' :: _ => l.anchorToken .alias
    | '&' :: _ => l.anchorToken .anchor
    | '!' :: _ => l.scalar (tag? l.inFlow)
    | '\'' :: _ => l.scalar (quoted? false)
    | '"' :: _ => l.scalar (quoted? true)
    | c :: after =>
      if c = '-' && endsWord after then l.blockEntry
      else if c = '?' && (l.inFlow || endsWord after) then l.explicitKey
      else if c = ':' && (l.inFlow || endsWord after) then l.value
      else if c = '|' && !l.inFlow then l.blockScalar true
      else if c = '>' && !l.inFlow then l.blockScalar false
      else if startsPlain l.inFlow (c :: after) then l.plainScalar
      else none
    | [] => none

def advance (l : Layout) : Option Layout := do
  let (keyAllowed, cursor) := skipFiller l.inFlow l.keyAllowed false l.cursor.mark l.cursor.rest
  let l ← { l with keyAllowed, cursor }.dropStaleKeys
  return l.closeBlocks l.cursor.column

/-- Every token takes a character, so more `fuel` than characters is enough. -/
def run : Nat → Layout → Option (List Token)
  | 0, _ => none
  | fuel + 1, l => do
    let l ← l.advance
    if l.cursor.rest.isEmpty then
      let l ← l.endBlocks
      return (l.push .streamEnd).tokens.reverse
    else
      run fuel (← l.token)

end Layout

def tokens? (s : String) : Option (List Token) :=
  let cs := s.toList
  if cs.all isPermitted then Layout.run (cs.length + 1) { cursor := { rest := cs } } else none

end ApiContract.Yaml
