import ApiContract.Number.Shortest

namespace ApiContract

def Number.Fits (n : Int) : Prop :=
  -9223372036854775808 ≤ n ∧ n < 18446744073709551616

instance (n : Int) : Decidable (Number.Fits n) :=
  inferInstanceAs (Decidable (_ ∧ _))

inductive Number where
  | int (value : Int) (fits : Number.Fits value)
  | float (value : Binary64)
  deriving DecidableEq

namespace Number

def ofInt? (n : Int) : Option Number :=
  if h : Fits n then some (.int n h) else (Binary64.ofInt n).map .float

def signed? : Number → Option Int
  | .int n _ => if n < 9223372036854775808 then some n else none
  | .float _ => none

def unsigned? : Number → Option Int
  | .int n _ => if 0 ≤ n then some n else none
  | .float _ => none

def toBinary64 : Number → Binary64
  | .int n _ => (Binary64.ofInt n).getD (.zero false)
  | .float x => x

/-- Two integers compare exactly if both are signed or both unsigned words. All other pairs compare
as floats. -/
def same (a b : Number) : Bool :=
  match a.signed?, b.signed? with
  | some x, some y => x == y
  | _, _ =>
    match a.unsigned?, b.unsigned? with
    | some x, some y => x == y
    | _, _ => a.toBinary64.sameValue b.toBinary64

def text : Number → String
  | .int n _ => toString n
  | .float x => x.text

end Number

end ApiContract
