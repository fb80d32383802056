import ApiContract.Number.Basic

namespace ApiContract

structure Numeral where
  whole : List Char
  fraction : Option (List Char)
  exponent : Option (Bool × List Char)

namespace Numeral

def digitsValue (base : Nat) (digits : List Char) : Nat :=
  digits.foldl (fun n c => n * base + (hexValue c)) 0
where
  hexValue (c : Char) : Nat :=
    if c.isDigit then c.toNat - '0'.toNat
    else if 'a' ≤ c ∧ c ≤ 'f' then c.toNat - 'a'.toNat + 10
    else if 'A' ≤ c ∧ c ≤ 'F' then c.toNat - 'A'.toNat + 10
    else 0

def isHexDigit (c : Char) : Bool :=
  c.isDigit || ('a' ≤ c && c ≤ 'f') || ('A' ≤ c && c ≤ 'F')

def splitSign : List Char → Bool × List Char
  | '-' :: cs => (true, cs)
  | '+' :: cs => (false, cs)
  | cs => (false, cs)

def scanExponent : List Char → Option (Bool × List Char) × List Char
  | c :: cs =>
    if c = 'e' ∨ c = 'E' then
      let (negative, cs) := splitSign cs
      (some (negative, cs.takeWhile Char.isDigit), cs.dropWhile Char.isDigit)
    else
      (none, c :: cs)
  | [] => (none, [])

/-- Splits off the longest numeral. Its digit runs may be empty. -/
def scan (cs : List Char) : Numeral × List Char :=
  let whole := cs.takeWhile Char.isDigit
  let (fraction, cs) :=
    match cs.dropWhile Char.isDigit with
    | '.' :: cs => (some (cs.takeWhile Char.isDigit), cs.dropWhile Char.isDigit)
    | cs => (none, cs)
  let (exponent, cs) := scanExponent cs
  (⟨whole, fraction, exponent⟩, cs)

def isComplete (n : Numeral) : Bool :=
  !n.whole.isEmpty && n.fraction.all (!·.isEmpty) && n.exponent.all (!·.2.isEmpty)

def isLoose (n : Numeral) : Bool :=
  (!n.whole.isEmpty || n.fraction.any (!·.isEmpty)) && n.exponent.all (!·.2.isEmpty)

def isWhole (n : Numeral) : Bool :=
  n.fraction.isNone && n.exponent.isNone

def power (n : Numeral) : Int :=
  let shift : Int := (n.fraction.getD []).length
  match n.exponent with
  | some (true, digits) => -(digitsValue 10 digits : Int) - shift
  | some (false, digits) => (digitsValue 10 digits : Int) - shift
  | none => -shift

def toBinary64? (negative : Bool) (n : Numeral) : Option Binary64 :=
  Binary64.ofDecimal negative (digitsValue 10 (n.whole ++ n.fraction.getD [])) n.power

end Numeral

def Numeral.ofLoose? (cs : List Char) : Option Numeral :=
  match scan cs with
  | (n, []) => if n.isLoose then some n else none
  | _ => none

/-- Reads a sign and a loose numeral. `some none` stands for infinities, overflow and NaN. -/
def Binary64.ofText? (s : String) : Option (Option Binary64) :=
  let (negative, cs) := Numeral.splitSign s.toList
  if ["inf", "infinity", "nan"].contains (String.ofList (cs.map Char.toLower)) then
    some none
  else
    (Numeral.ofLoose? cs).map (·.toBinary64? negative)

end ApiContract
