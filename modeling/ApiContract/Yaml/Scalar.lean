import ApiContract.Json.Basic
import ApiContract.Number.Numeral

namespace ApiContract.Yaml

def isNull (s : String) : Bool :=
  ["null", "Null", "NULL", "~"].contains s

def toBool? (s : String) : Option Bool :=
  if ["true", "True", "TRUE"].contains s then some true
  else if ["false", "False", "FALSE"].contains s then some false
  else none

def hasLeadingZero (cs : List Char) : Bool :=
  match cs with
  | '-' :: '0' :: c :: rest => (c :: rest).all Char.isDigit
  | '+' :: '0' :: c :: rest => (c :: rest).all Char.isDigit
  | '0' :: c :: rest => (c :: rest).all Char.isDigit
  | _ => false

def digits? (base : Nat) (cs : List Char) : Option Nat :=
  if !cs.isEmpty && cs.all (fun c => Numeral.isHexDigit c && Numeral.digitsValue 16 [c] < base) then
    some (Numeral.digitsValue base cs)
  else
    none

def magnitude? : List Char → Option Nat
  | '0' :: 'x' :: cs => digits? 16 cs
  | '0' :: 'o' :: cs => digits? 8 cs
  | '0' :: 'b' :: cs => digits? 2 cs
  | cs => digits? 10 cs

def whole? (cs : List Char) : Option Int :=
  if hasLeadingZero cs then
    none
  else
    match cs with
    | '-' :: cs => (magnitude? cs).map fun n => -(n : Int)
    | '+' :: cs => (magnitude? cs).map fun n => (n : Int)
    | cs => (magnitude? cs).map fun n => (n : Int)

inductive Whole where
  | fits (n : Number)
  | tooLarge

def Whole.ofChars? (cs : List Char) : Option Whole :=
  (whole? cs).bind fun n =>
    if h : Number.Fits n then some (.fits (.int n h))
    else if -170141183460469231731687303715884105728 ≤ n ∧
        n < 340282366920938463463374607431768211456 then some .tooLarge
    else none

def float? (s : String) : Option (Option Binary64) :=
  let cs := s.toList
  let unsigned := match cs with
    | '+' :: rest => rest
    | cs => cs
  let doubleSign := match cs with
    | '+' :: '+' :: _ => true
    | '+' :: '-' :: _ => true
    | _ => false
  if doubleSign then
    none
  else if [".inf", ".Inf", ".INF"].contains (String.ofList unsigned) ||
      ["-.inf", "-.Inf", "-.INF", ".nan", ".NaN", ".NAN"].contains s then
    some none
  else
    match Binary64.ofText? (String.ofList unsigned) with
    | some (some x) => some (some x)
    | _ => none

def ofFloat : Option Binary64 → Json
  | some x => .num (.float x)
  | none => .null

/-- Resolves a plain scalar. Integers between 64 and 128 bits have no value. -/
def plainValue? (s : String) : Option Json :=
  if s.isEmpty || isNull s then
    some .null
  else
    match toBool? s, Whole.ofChars? s.toList with
    | some b, _ => some (.bool b)
    | none, some (.fits n) => some (.num n)
    | none, some .tooLarge => none
    | none, none =>
      if hasLeadingZero s.toList then
        some (.str s)
      else
        match float? s with
        | some x => some (ofFloat x)
        | none => some (.str s)

end ApiContract.Yaml
