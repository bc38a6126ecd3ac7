import ClassCoupling.Decimal.Binary64

/-!
# Decimals with a fixed number of places

The exact value is rounded to the nearest decimal; a half goes to the even neighbour. The sign is
written also for a negative zero.
-/

namespace ClassCoupling.Decimal

/-- `numerator / denominator` to the nearest natural number, a half to the even one. -/
def roundHalfEven (numerator denominator : Nat) : Nat :=
  let quotient := numerator / denominator
  let rest := numerator % denominator
  if 2 * rest < denominator then quotient
  else if denominator < 2 * rest then quotient + 1
  else if quotient % 2 = 0 then quotient else quotient + 1

def padLeft (width : Nat) (digits : String) : String :=
  String.ofList (List.replicate (width - digits.length) '0') ++ digits

/-- The text of a number of units of the last place. -/
def placed (places units : Nat) : String :=
  if places = 0 then toString units
  else toString (units / Nat.pow 10 places) ++ "." ++
    padLeft places (toString (units % Nat.pow 10 places))

def fixed (places : Nat) (bits : UInt64) : String :=
  let x := Binary64.ofBits bits
  let sign := if x.negative then "-" else ""
  match x.magnitude with
  | .nan => "NaN"
  | .infinity => sign ++ "inf"
  | .finite mantissa exponent =>
    let r := Ratio.scaled (mantissa * Nat.pow 10 places) 2 exponent
    sign ++ placed places (roundHalfEven r.numerator r.denominator)

end ClassCoupling.Decimal
