/-!
# Binary floating-point values, taken apart

A 64-bit pattern is a sign and a magnitude; a finite magnitude is `mantissa * 2 ^ exponent`, exactly.
-/

namespace ClassCoupling.Decimal

inductive Magnitude where
  | nan
  | infinity
  | finite (mantissa : Nat) (exponent : Int)
  deriving DecidableEq, Repr

structure Binary64 where
  negative : Bool
  magnitude : Magnitude
  deriving DecidableEq, Repr

def Binary64.ofBits (bits : UInt64) : Binary64 :=
  let raw := bits.toNat
  let fraction : Nat := raw % Nat.pow 2 52
  let biased : Nat := raw / Nat.pow 2 52 % Nat.pow 2 11
  { negative := raw / Nat.pow 2 63 = 1
    magnitude :=
      if biased = 2047 then (if fraction = 0 then .infinity else .nan)
      else if biased = 0 then .finite fraction (-1074)
      else .finite (fraction + Nat.pow 2 52) ((biased : Int) - 1075) }

/-- A non-negative rational number; the denominator is positive. -/
structure Ratio where
  numerator : Nat
  denominator : Nat
  deriving DecidableEq, Repr

/-- The value `mantissa * base ^ exponent`. -/
def Ratio.scaled (mantissa base : Nat) (exponent : Int) : Ratio :=
  if 0 ≤ exponent then ⟨mantissa * Nat.pow base exponent.toNat, 1⟩
  else ⟨mantissa, Nat.pow base (-exponent).toNat⟩

def Ratio.lt (a b : Ratio) : Bool :=
  a.numerator * b.denominator < b.numerator * a.denominator

def Ratio.le (a b : Ratio) : Bool :=
  a.numerator * b.denominator ≤ b.numerator * a.denominator

end ClassCoupling.Decimal
