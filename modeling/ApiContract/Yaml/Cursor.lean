namespace ApiContract.Yaml

def isBreak (c : Char) : Bool :=
  c = '\n' || c = '\r' || c = '\u0085' || c = '\u2028' || c = '\u2029'

def isBlank (c : Char) : Bool :=
  c = ' ' || c = '\t'

def isWordChar (c : Char) : Bool :=
  c.isAlphanum || c = '_' || c = '-'

def isPermitted (c : Char) : Bool :=
  c = '\t' || c = '\n' || c = '\r' || (' ' ≤ c && c ≤ '~') || c = '\u0085' ||
    (0xa0 ≤ c.toNat && c.toNat ≠ 0xfffe && c.toNat ≠ 0xffff)

def byteOrderMark : Char := '\ufeff'

def breakContent (c : Char) : Char :=
  if c = '\u2028' ∨ c = '\u2029' then c else '\n'

def endsWord : List Char → Bool
  | [] => true
  | c :: _ => isBlank c || isBreak c

def endsLine : List Char → Bool
  | [] => true
  | c :: _ => isBreak c

def isDocumentMarker : List Char → Bool
  | '-' :: '-' :: '-' :: rest => endsWord rest
  | '.' :: '.' :: '.' :: rest => endsWord rest
  | _ => false

structure Mark where
  line : Nat := 0
  column : Nat := 0
  bytes : Nat := 0

namespace Mark

def next (m : Mark) (c : Char) : Mark :=
  { m with column := m.column + 1, bytes := m.bytes + c.utf8Size }

def after (m : Mark) (cs : List Char) : Mark :=
  cs.foldl next m

def nextLine (m : Mark) : Mark :=
  { line := m.line + 1 }

end Mark

structure Cursor where
  rest : List Char
  mark : Mark := {}

namespace Cursor

def column (c : Cursor) : Nat :=
  c.mark.column

def skip (c : Cursor) (count : Nat) : Cursor :=
  ⟨c.rest.drop count, c.mark.after (c.rest.take count)⟩

def takeWhile (c : Cursor) (p : Char → Bool) : List Char × Cursor :=
  let run := c.rest.takeWhile p
  (run, ⟨c.rest.dropWhile p, c.mark.after run⟩)

def skipWhile (c : Cursor) (p : Char → Bool) : Cursor :=
  (c.takeWhile p).2

def takeBreak (c : Cursor) : List Char × Cursor :=
  match c.rest with
  | '\r' :: '\n' :: rest => (['\n'], ⟨rest, c.mark.nextLine⟩)
  | b :: rest => if isBreak b then ([breakContent b], ⟨rest, c.mark.nextLine⟩) else ([], c)
  | [] => ([], c)

def nextLine? (c : Cursor) : Option Cursor :=
  let c := c.skipWhile isBlank
  let c := if c.rest.head? = some '#' then c.skipWhile (!isBreak ·) else c
  if endsLine c.rest then some c.takeBreak.2 else none

end Cursor

end ApiContract.Yaml
