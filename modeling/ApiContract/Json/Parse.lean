import ApiContract.Json.Basic
import ApiContract.Number.Numeral

/-!
Reading a value from its text, in two passes without backtracking. The first folds the characters
into tokens, the second folds the tokens into a value and keeps the arrays and objects that are
still open on a stack.
-/

namespace ApiContract.Json

def units : List Char → Option (List Nat)
  | [] => some []
  | '\\' :: 'u' :: a :: b :: c :: d :: rest =>
    if [a, b, c, d].all Numeral.isHexDigit then
      (units rest).map (Numeral.digitsValue 16 [a, b, c, d] :: ·)
    else
      none
  | '\\' :: c :: rest =>
    match c with
    | '"' | '\\' | '/' => (units rest).map (c.toNat :: ·)
    | 'b' => (units rest).map (0x08 :: ·)
    | 'f' => (units rest).map (0x0c :: ·)
    | 'n' => (units rest).map (0x0a :: ·)
    | 'r' => (units rest).map (0x0d :: ·)
    | 't' => (units rest).map (0x09 :: ·)
    | _ => none
  | c :: rest => if c = '\\' ∨ c < ' ' then none else (units rest).map (c.toNat :: ·)

def isHighSurrogate (n : Nat) : Bool := 0xd800 ≤ n && n < 0xdc00

def isLowSurrogate (n : Nat) : Bool := 0xdc00 ≤ n && n < 0xe000

/-- Joins surrogate pairs; a lone surrogate is refused. -/
def joinUnits : List Nat → Option (List Char)
  | [] => some []
  | n :: rest =>
    if isHighSurrogate n then
      match rest with
      | m :: rest =>
        if isLowSurrogate m then
          (joinUnits rest).map (Char.ofNat (0x10000 + (n - 0xd800) * 0x400 + (m - 0xdc00)) :: ·)
        else
          none
      | [] => none
    else if isLowSurrogate n then
      none
    else
      (joinUnits rest).map (Char.ofNat n :: ·)

def stringOfBody (body : List Char) : Option String := do
  return String.ofList (← joinUnits (← units body))

inductive Token where
  | beginArray
  | endArray
  | beginObject
  | endObject
  | colon
  | comma
  | scalar (value : Json)

/-- An integer if the numeral is whole and fits. Negative zero is a float, which keeps its sign. -/
def numberOfNumeral? (negative : Bool) (n : Numeral) : Option Number :=
  if !n.isComplete || (n.whole.length > 1 && n.whole.head? == some '0') then
    none
  else
    let magnitude := Numeral.digitsValue 10 n.whole
    if n.isWhole && !(negative && magnitude == 0) then
      Number.ofInt? (if negative then -magnitude else magnitude)
    else
      (n.toBinary64? negative).map .float

def wordToken? (word : List Char) : Option Token :=
  let number (negative : Bool) (cs : List Char) : Option Token :=
    match Numeral.scan cs with
    | (n, []) => (numberOfNumeral? negative n).map (.scalar <| .num ·)
    | _ => none
  match word with
  | ['n', 'u', 'l', 'l'] => some (.scalar .null)
  | ['t', 'r', 'u', 'e'] => some (.scalar (.bool true))
  | ['f', 'a', 'l', 's', 'e'] => some (.scalar (.bool false))
  | '-' :: cs => number true cs
  | cs => number false cs

def isWordChar (c : Char) : Bool :=
  c.isAlphanum || c = '-' || c = '+' || c = '.'

inductive Lexing where
  | between
  | word (seen : List Char)
  | string (seen : List Char) (afterBackslash : Bool)

structure Lexer where
  tokens : List Token
  lexing : Lexing

def Lexer.start (l : Lexer) (c : Char) : Option Lexer :=
  let token (t : Token) : Option Lexer := some ⟨t :: l.tokens, .between⟩
  match c with
  | ' ' | '\t' | '\n' | '\r' => some ⟨l.tokens, .between⟩
  | '[' => token .beginArray
  | ']' => token .endArray
  | '{' => token .beginObject
  | '}' => token .endObject
  | ':' => token .colon
  | ',' => token .comma
  | '"' => some ⟨l.tokens, .string [] false⟩
  | c => if isWordChar c then some ⟨l.tokens, .word [c]⟩ else none

def Lexer.finish (l : Lexer) : Option (List Token) :=
  match l.lexing with
  | .between => some l.tokens
  | .word seen => (wordToken? seen.reverse).map (· :: l.tokens)
  | .string _ _ => none

def Lexer.step (l : Lexer) (c : Char) : Option Lexer :=
  match l.lexing with
  | .between => l.start c
  | .word seen =>
    if isWordChar c then
      some { l with lexing := .word (c :: seen) }
    else
      l.finish.bind fun tokens => Lexer.start ⟨tokens, .between⟩ c
  | .string seen true => some { l with lexing := .string (c :: seen) false }
  | .string seen false =>
    if c = '"' then
      (stringOfBody seen.reverse).map fun s => ⟨.scalar (.str s) :: l.tokens, .between⟩
    else
      some { l with lexing := .string (c :: seen) (c = '\\') }

def tokens? (cs : List Char) : Option (List Token) := do
  let l ← cs.foldlM Lexer.step ⟨[], .between⟩
  return (← l.finish).reverse

/-- An array or object that is still open, newest item first. -/
inductive Frame where
  | array (items : List Json)
  | object (members : List (String × Json)) (pending : String)

inductive Expected where
  | value
  | firstItem
  | key
  | firstKey
  | colon (key : String)
  | separator
  | nothing (value : Json)

structure Reader where
  frames : List Frame
  expected : Expected

def maxDepth : Nat := 127

def Reader.put (value : Json) : List Frame → Reader
  | [] => ⟨[], .nothing value⟩
  | .array items :: rest => ⟨.array (value :: items) :: rest, .separator⟩
  | .object members pending :: rest =>
    ⟨.object (insertMember pending value members) pending :: rest, .separator⟩

def Reader.open? (r : Reader) (frame : Frame) (expected : Expected) : Option Reader :=
  if r.frames.length < maxDepth then some ⟨frame :: r.frames, expected⟩ else none

def Reader.startValue (r : Reader) : Token → Option Reader
  | .scalar v => some (.put v r.frames)
  | .beginArray => r.open? (.array []) .firstItem
  | .beginObject => r.open? (.object [] "") .firstKey
  | _ => none

def Reader.step (r : Reader) (t : Token) : Option Reader :=
  match r.expected, t, r.frames with
  | .firstItem, .endArray, .array items :: rest => some (.put (.arr items.reverse) rest)
  | .separator, .endArray, .array items :: rest => some (.put (.arr items.reverse) rest)
  | .firstKey, .endObject, .object members _ :: rest => some (.put (.obj members) rest)
  | .separator, .endObject, .object members _ :: rest => some (.put (.obj members) rest)
  | .separator, .comma, .array _ :: _ => some { r with expected := .value }
  | .separator, .comma, .object _ _ :: _ => some { r with expected := .key }
  | .firstKey, .scalar (.str k), _ => some { r with expected := .colon k }
  | .key, .scalar (.str k), _ => some { r with expected := .colon k }
  | .colon k, .colon, .object members _ :: rest => some ⟨.object members k :: rest, .value⟩
  | .value, t, _ => r.startValue t
  | .firstItem, t, _ => r.startValue t
  | _, _, _ => none

def parse? (s : String) : Option Json := do
  let r ← (← tokens? s.toList).foldlM Reader.step ⟨[], .value⟩
  match r.expected with
  | .nothing value => return value
  | _ => none

end ApiContract.Json
