import ApiContract.Yaml.Folding
import ApiContract.Number.Numeral

namespace ApiContract.Yaml

inductive Style where
  | plain
  | quoted
  | literal
  | folded
  deriving DecidableEq

abbrev Tag := List UInt8

namespace Tag

def ofChars (cs : List Char) : Tag :=
  cs.map fun c => c.toNat.toUInt8

def untilZero (tag : Tag) : Tag :=
  tag.takeWhile (· ≠ 0)

def text? (tag : Tag) : Option String :=
  String.fromUTF8? ⟨tag.toArray⟩

def isLocal (tag : Tag) : Bool :=
  tag.head? = some 0x21

def customName? : Tag → Option String
  | [0x21] => some "!"
  | 0x21 :: name => text? name
  | _ => none

def core (name : String) : Tag :=
  ofChars ("tag:yaml.org,2002:" ++ name).toList

end Tag

inductive Token where
  | versionDirective (major minor : Nat)
  | tagDirective (handle : String) (expansion : Tag)
  | documentStart
  | documentEnd
  | streamEnd
  | blockSequenceStart
  | blockMappingStart
  | blockEnd
  | flowSequenceStart
  | flowSequenceEnd
  | flowMappingStart
  | flowMappingEnd
  | blockEntry
  | flowEntry
  | key
  | value
  | alias (name : String)
  | anchor (name : String)
  | tag (handle : String) (suffix : Tag)
  | scalar (style : Style) (text : String)
  deriving DecidableEq

def anchorName? (c : Cursor) : Option (String × Cursor) :=
  let (name, c) := (c.skip 1).takeWhile isWordChar
  let ended := endsWord c.rest ||
    c.rest.head?.any (['?', ':', ',', ']', '}', '%', '@', '\x60'].contains ·)
  if !name.isEmpty && ended then some (String.ofList name, c) else none

def isUriChar (verbatim : Bool) (c : Char) : Bool :=
  isWordChar c ||
    [';', '/', '?', ':', '@', '&', '=', '+', '$', '.', '!', '~', '*', '\'', '(', ')'].contains c ||
    (verbatim && [',', '[', ']'].contains c)

def followingBytes? (byte : Nat) : Option Nat :=
  if byte < 0x80 then some 0
  else if byte / 0x20 = 6 then some 1
  else if byte / 0x10 = 14 then some 2
  else if byte / 0x08 = 30 then some 3
  else none

/-- The bytes of a URI, newest first in `seen`. Percent escapes spell UTF-8, of whose current
character `missing` bytes are still to come. -/
def uriBytes (verbatim : Bool) (seen : Tag) (missing : Nat) (mark : Mark) :
    List Char → Option (Tag × Cursor)
  | '%' :: a :: b :: rest =>
    if !Numeral.isHexDigit a || !Numeral.isHexDigit b then
      none
    else
      let byte := Numeral.digitsValue 16 [a, b]
      let seen := byte.toUInt8 :: seen
      let mark := mark.after ['%', a, b]
      match missing with
      | 0 =>
        match followingBytes? byte with
        | some missing => uriBytes verbatim seen missing mark rest
        | none => none
      | missing + 1 =>
        if byte / 0x40 = 2 then uriBytes verbatim seen missing mark rest else none
  | c :: rest =>
    if missing ≠ 0 || c = '%' then none
    else if isUriChar verbatim c then
      uriBytes verbatim (c.toNat.toUInt8 :: seen) 0 (mark.next c) rest
    else some (seen.reverse, ⟨c :: rest, mark⟩)
  | [] => if missing ≠ 0 then none else some (seen.reverse, ⟨[], mark⟩)

def uri? (verbatim : Bool) (c : Cursor) : Option (Tag × Cursor) :=
  uriBytes verbatim [] 0 c.mark c.rest

def tagHandle? (c : Cursor) : Option (List Char × Cursor) :=
  if c.rest.head? = some '!' then
    let (word, c) := (c.skip 1).takeWhile isWordChar
    if c.rest.head? = some '!' then some ('!' :: word ++ ['!'], c.skip 1)
    else some ('!' :: word, c)
  else
    none

def isClosedHandle (handle : List Char) : Bool :=
  1 < handle.length && handle.getLast? = some '!'

def tag? (inFlow : Bool) (c : Cursor) : Option (Token × Cursor) := do
  let (token, c) ←
    match c.rest with
    | '!' :: '<' :: _ => do
      let (address, c) ← uri? true (c.skip 2)
      if address.isEmpty || c.rest.head? ≠ some '>' then failure
      pure (Token.tag "" address.untilZero, c.skip 1)
    | _ => do
      let (handle, c) ← tagHandle? c
      let (suffix, c) ← uri? false c
      if isClosedHandle handle then
        if suffix.isEmpty then failure
        pure (Token.tag (String.ofList handle) suffix.untilZero, c)
      else
        let suffix := (Tag.ofChars (handle.drop 1) ++ suffix).untilZero
        if suffix.isEmpty then pure (Token.tag "" [0x21], c) else pure (Token.tag "!" suffix, c)
  if endsWord c.rest || (inFlow && c.rest.head? = some ',') then some (token, c) else none

def versionNumber? (c : Cursor) : Option (Nat × Cursor) :=
  let (digits, c) := c.takeWhile Char.isDigit
  if digits.isEmpty || 9 < digits.length then none
  else some (Numeral.digitsValue 10 digits, c)

def directive? (c : Cursor) : Option (Token × Cursor) := do
  let (name, c) := (c.skip 1).takeWhile isWordChar
  if name.isEmpty || !endsWord c.rest then failure
  let c := c.skipWhile isBlank
  let (token, c) ←
    match String.ofList name with
    | "YAML" => do
      let (major, c) ← versionNumber? c
      if c.rest.head? ≠ some '.' then failure
      let (minor, c) ← versionNumber? (c.skip 1)
      pure (Token.versionDirective major minor, c)
    | "TAG" => do
      let (handle, c) ← tagHandle? c
      if !isClosedHandle handle && handle ≠ ['!'] then failure
      if !c.rest.head?.any isBlank then failure
      let (expansion, c) ← uri? true (c.skipWhile isBlank)
      if expansion.isEmpty || !endsWord c.rest then failure
      pure (Token.tagDirective (String.ofList handle) expansion.untilZero, c)
    | _ => failure
  return (token, ← c.nextLine?)

def simpleEscape? : Char → Option Char
  | '0' => some '\x00'
  | 'a' => some '\x07'
  | 'b' => some '\x08'
  | 't' => some '\t'
  | '\t' => some '\t'
  | 'n' => some '\n'
  | 'v' => some '\x0b'
  | 'f' => some '\x0c'
  | 'r' => some '\r'
  | 'e' => some '\x1b'
  | ' ' => some ' '
  | '"' => some '"'
  | '/' => some '/'
  | '\\' => some '\\'
  | 'N' => some '\u0085'
  | '_' => some '\u00a0'
  | 'L' => some '\u2028'
  | 'P' => some '\u2029'
  | _ => none

def escapeWidth? : Char → Option Nat
  | 'x' => some 2
  | 'u' => some 4
  | 'U' => some 8
  | _ => none

def charOfCode? (code : Nat) : Option Char :=
  if (0xd800 ≤ code ∧ code ≤ 0xdfff) ∨ 0x10ffff < code then none else some (Char.ofNat code)

/-- Reads up to the closing quote. In a numeric escape, `digits` are still to come for `code`. -/
def quotedText (double : Bool) (f : Folding) (digits code : Nat) (mark : Mark) :
    List Char → Option (String × Cursor)
  | [] => none
  | c :: rest =>
    match digits with
    | digits + 1 =>
      if !Numeral.isHexDigit c then
        none
      else
        let code := code * 16 + Numeral.digitsValue 16 [c]
        if digits = 0 then
          match charOfCode? code with
          | some e => quotedText double (f.push e) 0 0 (mark.next c) rest
          | none => none
        else
          quotedText double f digits code (mark.next c) rest
    | 0 =>
      if isBlank c then
        quotedText double (f.blank c) 0 0 (mark.next c) rest
      else if isBreak c then
        match c, rest with
        | '\r', '\n' :: rest => quotedText double (f.lineBreak c) 0 0 mark.nextLine rest
        | c, rest => quotedText double (f.lineBreak c) 0 0 mark.nextLine rest
      else if mark.column = 0 && isDocumentMarker (c :: rest) then
        none
      else if double then
        match c, rest with
        | '"', rest => some (f.flush.result, ⟨rest, mark.next c⟩)
        | '\\', '\r' :: '\n' :: rest =>
          quotedText double f.escapedBreak 0 0 mark.nextLine rest
        | '\\', e :: rest =>
          if isBreak e then
            quotedText double f.escapedBreak 0 0 mark.nextLine rest
          else
            match simpleEscape? e, escapeWidth? e with
            | some escaped, _ => quotedText double (f.push escaped) 0 0 (mark.after [c, e]) rest
            | none, some width => quotedText double f width 0 (mark.after [c, e]) rest
            | none, none => none
        | '\\', [] => none
        | c, rest => quotedText double (f.push c) 0 0 (mark.next c) rest
      else
        match c, rest with
        | '\'', '\'' :: rest => quotedText double (f.push c) 0 0 (mark.after [c, c]) rest
        | '\'', rest => some (f.flush.result, ⟨rest, mark.next c⟩)
        | c, rest => quotedText double (f.push c) 0 0 (mark.next c) rest

def quoted? (double : Bool) (c : Cursor) : Option (Token × Cursor) := do
  let c := c.skip 1
  let (text, c) ← quotedText double {} 0 0 c.mark c.rest
  return (.scalar .quoted text, c)

/-- Reads a plain scalar. Outside of brackets its later lines are indented by at least `indent`. -/
def plainText (inFlow : Bool) (indent : Int) (f : Folding) (mark : Mark) :
    List Char → Option (Folding × Cursor)
  | [] => some (f, ⟨[], mark⟩)
  | '\r' :: '\n' :: rest => plainText inFlow indent (f.lineBreak '\n') mark.nextLine rest
  | c :: rest =>
    let stop : Option (Folding × Cursor) := some (f, ⟨c :: rest, mark⟩)
    if isBlank c then
      if f.broken && c = '\t' && mark.column < indent then none
      else plainText inFlow indent (f.blank c) (mark.next c) rest
    else if isBreak c then
      plainText inFlow indent (f.lineBreak c) mark.nextLine rest
    else if f.isPending && (c = '#' || (!inFlow && mark.column < indent) ||
        (mark.column = 0 && isDocumentMarker (c :: rest))) then
      stop
    else if inFlow && c = ':' && rest.head?.any ([',', '?', '[', ']', '{', '}'].contains ·) then
      none
    else if (c = ':' && endsWord rest) || (inFlow && [',', '[', ']', '{', '}'].contains c) then
      stop
    else
      plainText inFlow indent (f.push c) (mark.next c) rest

def blockBreaks (indent deepest : Nat) (breaks : List Char) (mark : Mark) :
    List Char → Option (Nat × List Char × Cursor)
  | [] => some (max deepest mark.column, breaks, ⟨[], mark⟩)
  | '\r' :: '\n' :: rest =>
    blockBreaks indent (max deepest mark.column) ('\n' :: breaks) mark.nextLine rest
  | c :: rest =>
    -- the indentation of zero is still to be found
    let inIndent := indent = 0 || mark.column < indent
    if c = ' ' && inIndent then
      blockBreaks indent deepest breaks (mark.next c) rest
    else if c = '\t' && inIndent then
      none
    else if isBreak c then
      blockBreaks indent (max deepest mark.column) (breakContent c :: breaks) mark.nextLine rest
    else
      some (max deepest mark.column, breaks, ⟨c :: rest, mark⟩)

/-- The lines of a block scalar so far, newest character first: text, the break after its last line,
the breaks after that, and whether that line starts with a blank. -/
structure Block where
  text : List Char := []
  lastBreak : List Char := []
  breaks : List Char
  startsBlank : Bool := false

def Block.addLine (literal : Bool) (b : Block) (line lineBreak breaks : List Char) : Block :=
  let startsBlank := line.head?.any isBlank
  let joint :=
    if !literal && b.lastBreak = ['\n'] && !b.startsBlank && !startsBlank then
      if b.breaks.isEmpty then [' '] else []
    else
      b.lastBreak
  ⟨line.reverse ++ b.breaks ++ joint ++ b.text, lineBreak, breaks, startsBlank⟩

def blockLines (literal : Bool) (indent : Nat) : Nat → Block → Cursor → Option (Block × Cursor)
  -- a line takes a character, so fuel for the characters left is enough
  | 0, b, c => some (b, c)
  | fuel + 1, b, c =>
    if c.column = indent && !c.rest.isEmpty then do
      let (line, c) := c.takeWhile (!isBreak ·)
      let (lineBreak, c) := c.takeBreak
      let (_, breaks, c) ← blockBreaks indent 0 [] c.mark c.rest
      blockLines literal indent fuel (b.addLine literal line lineBreak breaks) c
    else
      some (b, c)

inductive Chomping where
  | strip
  | clip
  | keep
  deriving DecidableEq

def chomping? : List Char → Option Chomping
  | '+' :: _ => some .keep
  | '-' :: _ => some .strip
  | _ => none

def increment? (c : Cursor) : Option (Nat × Cursor) :=
  match c.rest with
  | d :: _ =>
    if d = '0' then none
    else if d.isDigit then some (Numeral.digitsValue 10 [d], c.skip 1)
    else some (0, c)
  | [] => some (0, c)

def blockHeader? (c : Cursor) : Option (Chomping × Nat × Cursor) := do
  match chomping? c.rest with
  | some chomping =>
    let (increment, c) ← increment? (c.skip 1)
    return (chomping, increment, c)
  | none =>
    let (increment, c) ← increment? c
    match increment, chomping? c.rest with
    | _ + 1, some chomping => return (chomping, increment, c.skip 1)
    | _, _ => return (.clip, increment, c)

def block? (literal : Bool) (parent : Int) (c : Cursor) : Option (Token × Cursor) := do
  let (chomping, increment, c) ← blockHeader? (c.skip 1)
  let c ← c.nextLine?
  let stated := if increment = 0 then 0 else (max parent 0).toNat + increment
  let (deepest, breaks, c) ← blockBreaks stated 0 [] c.mark c.rest
  let indent := if stated = 0 then max deepest (max (parent + 1).toNat 1) else stated
  let (b, c) ← blockLines literal indent c.rest.length { breaks } c
  let tail := match chomping with
    | .strip => []
    | .clip => b.lastBreak
    | .keep => b.breaks ++ b.lastBreak
  let style := if literal then Style.literal else .folded
  return (.scalar style (String.ofList (tail ++ b.text).reverse), c)

end ApiContract.Yaml
