import ApiContract.Yaml.Cursor

namespace ApiContract.Yaml

/-- The text so far, and the blanks and breaks since its last character. All lists are newest
first. -/
structure Folding where
  text : List Char := []
  blanks : List Char := []
  broken : Bool := false
  firstBreak : Option Char := none
  breaks : List Char := []

namespace Folding

def isPending (f : Folding) : Bool :=
  f.broken || !f.blanks.isEmpty

def blank (f : Folding) (c : Char) : Folding :=
  if f.broken then f else { f with blanks := c :: f.blanks }

def lineBreak (f : Folding) (c : Char) : Folding :=
  if f.broken then { f with breaks := breakContent c :: f.breaks }
  else { f with blanks := [], broken := true, firstBreak := some (breakContent c) }

def flush (f : Folding) : Folding :=
  if f.broken then
    match f.firstBreak with
    | some '\n' => { text := if f.breaks.isEmpty then ' ' :: f.text else f.breaks ++ f.text }
    | first => { text := f.breaks ++ first.toList ++ f.text }
  else
    { text := f.blanks ++ f.text }

def push (f : Folding) (c : Char) : Folding :=
  let f := f.flush
  { f with text := c :: f.text }

def escapedBreak (f : Folding) : Folding :=
  { f.flush with broken := true }

def result (f : Folding) : String :=
  String.ofList f.text.reverse

end Folding

end ApiContract.Yaml
