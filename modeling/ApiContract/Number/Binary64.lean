/-!
Finite binary floating point numbers of 64 bits, held as a sign, a whole mantissa and a power of
two. Fractions round to the nearest one, and a fraction half way between two goes to the one with
the even mantissa.
-/

namespace ApiContract

/-- Every finite value has exactly one canonical pair: the mantissa fills its 53 bits unless the
exponent is already the least one. -/
def Binary64.Canonical (mantissa : Nat) (exponent : Int) : Prop :=
  mantissa < 9007199254740992 ∧ -1074 ≤ exponent ∧ exponent ≤ 971 ∧
    (4503599627370496 ≤ mantissa ∨ exponent = -1074)

instance (mantissa : Nat) (exponent : Int) : Decidable (Binary64.Canonical mantissa exponent) :=
  inferInstanceAs (Decidable (_ ∧ _))

/-- The number `mantissa * 2 ^ exponent`, negated if `negative`. -/
structure Binary64 where
  negative : Bool
  mantissa : Nat
  exponent : Int
  canonical : Binary64.Canonical mantissa exponent
  deriving DecidableEq

namespace Binary64

def zero (negative : Bool) : Binary64 :=
  ⟨negative, 0, -1074, by decide⟩

def isZero (x : Binary64) : Bool :=
  x.mantissa == 0

def sameValue (x y : Binary64) : Bool :=
  x = y || (x.isZero && y.isZero)

def ratio (x : Binary64) : Nat × Nat :=
  (x.mantissa * Nat.pow 2 x.exponent.toNat, Nat.pow 2 (-x.exponent).toNat)

def roundDiv (num den : Nat) : Nat :=
  let quotient := num / den
  let remainder := num % den
  if 2 * remainder < den ∨ (2 * remainder = den ∧ quotient % 2 = 0) then quotient else quotient + 1

def scale (base : Nat) (power : Int) (num den : Nat) : Nat × Nat :=
  (num * Nat.pow base (-power).toNat, den * Nat.pow base power.toNat)

/-- The greatest `k` with `2 ^ k ≤ num / den`, for positive `num` and `den`. -/
def floorLog2 (num den : Nat) : Int :=
  let guess : Int := num.log2 - den.log2
  let (n, d) := scale 2 guess num den
  if n < d then guess - 1 else guess

/-- Rounds `num / den`; `none` is beyond the largest finite number. -/
def ofRatio (negative : Bool) (num den : Nat) : Option Binary64 :=
  if num = 0 then
    some (zero negative)
  else
    let exponent := max (floorLog2 num den - 52) (-1074)
    let (n, d) := scale 2 exponent num den
    let rounded := roundDiv n d
    let (mantissa, exponent) :=
      if rounded = 9007199254740992 then (4503599627370496, exponent + 1) else (rounded, exponent)
    if h : Canonical mantissa exponent then some ⟨negative, mantissa, exponent, h⟩ else none

def ofDecimal (negative : Bool) (digits : Nat) (power : Int) : Option Binary64 :=
  -- powers that decide alone are never raised
  if digits = 0 ∨ power + digits.log2 + 1 < -400 then
    some (zero negative)
  else if 400 < power then
    none
  else
    ofRatio negative (digits * Nat.pow 10 power.toNat) (Nat.pow 10 (-power).toNat)

def ofInt (n : Int) : Option Binary64 :=
  ofRatio (n < 0) n.natAbs 1

end Binary64

end ApiContract
