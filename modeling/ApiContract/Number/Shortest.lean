import ApiContract.Number.Binary64

namespace ApiContract

structure Decimal where
  digits : Nat
  power : Int
  deriving DecidableEq

namespace Decimal

def reads (d : Decimal) (x : Binary64) : Bool :=
  Binary64.ofDecimal x.negative d.digits d.power == some x

def exact (x : Binary64) : Decimal :=
  ⟨x.mantissa * Nat.pow 2 x.exponent.toNat * Nat.pow 5 (-x.exponent).toNat, min x.exponent 0⟩

def floorLog10 (num den : Nat) : Int :=
  let guess := Int.fdiv (Binary64.floorLog2 num den * 30103) 100000
  let atLeast (power : Int) : Bool :=
    let (n, d) := Binary64.scale 10 power num den
    d ≤ n
  if atLeast (guess + 1) then guess + 1 else if atLeast guess then guess else guess - 1

/-- Of the two neighbours of `x` among the multiples of `10 ^ power`, the one that reads back; of
two the nearer, and the even one in a tie. -/
def onGrid (x : Binary64) (power : Int) : Option Decimal :=
  let (num, den) := x.ratio
  let (n, d) := Binary64.scale 10 power num den
  let below : Decimal := ⟨n / d, power⟩
  let above : Decimal := ⟨n / d + 1, power⟩
  match below.reads x, above.reads x with
  | true, true => some ⟨Binary64.roundDiv n d, power⟩
  | true, false => some below
  | false, true => some above
  | false, false => none

/-- The fewest digits that read back as `x`. Seventeen always do; the exact value is a fallback that
makes reading back hold by construction. -/
def shortest (x : Binary64) : Decimal :=
  if x.isZero then
    ⟨0, 0⟩
  else
    let (num, den) := x.ratio
    let leading := floorLog10 num den
    ((List.range 17).findSome? fun (n : Nat) => onGrid x (leading - n)).getD (exact x)

def trimmed (d : Decimal) : List Char × Int :=
  let all := Nat.toDigits 10 d.digits
  let kept := (all.reverse.dropWhile (· = '0')).reverse
  if kept.isEmpty then (['0'], 0) else (kept, d.power + (all.length - kept.length : Nat))

def positional (digits : List Char) (power : Int) : List Char :=
  let whole := digits.length + power
  if 0 ≤ power then
    digits ++ List.replicate power.toNat '0' ++ ['.', '0']
  else if 0 < whole then
    digits.take whole.toNat ++ '.' :: digits.drop whole.toNat
  else
    '0' :: '.' :: List.replicate (-whole).toNat '0' ++ digits

def scientific (digits : List Char) (exponent : Int) : List Char :=
  let fraction := if digits.length ≤ 1 then [] else '.' :: digits.drop 1
  digits.take 1 ++ fraction ++ ['e', if exponent < 0 then '-' else '+'] ++
    Nat.toDigits 10 exponent.natAbs

def text (d : Decimal) : List Char :=
  let (digits, power) := d.trimmed
  let exponent := power + digits.length - 1
  if -5 ≤ exponent ∧ exponent ≤ 15 then positional digits power else scientific digits exponent

end Decimal

def Binary64.text (x : Binary64) : String :=
  String.ofList ((if x.negative then ['-'] else []) ++ (Decimal.shortest x).text)

end ApiContract
