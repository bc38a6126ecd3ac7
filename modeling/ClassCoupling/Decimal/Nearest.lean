import ClassCoupling.Decimal.Fixed

/-!
# The nearest binary value of a decimal

Of the values with 53 bits, the one nearest to `mantissa * 10 ^ exponent`; of two equally near ones
the one with an even mantissa.
-/

namespace ClassCoupling.Decimal

/-- The exponent for which the mantissa of a value has 53 bits, or the least exponent there is. -/
def exponentFor (r : Ratio) : Int :=
  let guess : Int := (r.numerator.log2 : Int) - r.denominator.log2 - 52
  let reached := (Ratio.scaled (Nat.pow 2 52) 2 guess).le r
  max (if reached then guess else guess - 1) (-1074)

/-- The nearest value of a positive number. -/
def nearestOf (r : Ratio) : Magnitude :=
  let exponent := exponentFor r
  let unit := Ratio.scaled 1 2 exponent
  let mantissa := roundHalfEven (r.numerator * unit.denominator) (r.denominator * unit.numerator)
  let (mantissa, exponent) :=
    if mantissa = Nat.pow 2 53 then (Nat.pow 2 52, exponent + 1) else (mantissa, exponent)
  if 971 < exponent then .infinity else .finite mantissa exponent

/-- Numbers far outside the range of binary values are not computed. -/
def nearest (mantissa : Nat) (exponent : Int) : Magnitude :=
  let point : Int := (Nat.toDigits 10 mantissa).length + exponent
  if mantissa = 0 || point < -330 then .finite 0 (-1074)
  else if 310 < point then .infinity
  else nearestOf (Ratio.scaled mantissa 10 exponent)

end ClassCoupling.Decimal
