import ClassCoupling.Decimal.Binary64

/-!
# The shortest decimal that reads back

Of all decimals that are rounded to a given binary value, `shortest?` takes one with the fewest
digits, and of those the nearest. The reals that round to the value form an interval, whose ends
belong to it when the mantissa is even.
-/

namespace ClassCoupling.Decimal

/-- The number `0.d₁d₂… * 10 ^ point`, given by the natural number `d₁d₂…`. -/
structure Digits where
  digits : Nat
  point : Int
  deriving DecidableEq, Repr

/-- The reals that round to a value. -/
structure Interval where
  low : Ratio
  high : Ratio
  closed : Bool

def Interval.contains (i : Interval) (r : Ratio) : Bool :=
  if i.closed then i.low.le r && r.le i.high else i.low.lt r && r.lt i.high

/-- The gap below a power of two is half the gap above it, except at the bottom of the range. -/
def Interval.around (mantissa : Nat) (exponent : Int) : Interval :=
  let below := if mantissa = Nat.pow 2 52 ∧ exponent ≠ -1074 then 1 else 2
  { low := .scaled (4 * mantissa - below) 2 (exponent - 2)
    high := .scaled (4 * mantissa + 2) 2 (exponent - 2)
    closed := mantissa % 2 = 0 }

/-- The least `point` with `r < 10 ^ point`, looked for near the size of the value. -/
def pointAbove (r : Ratio) (mantissa : Nat) (exponent : Int) : Int :=
  let guess := (Nat.log2 mantissa + exponent) * 30103 / 100000
  let candidates := [guess - 1, guess, guess + 1, guess + 2]
  (candidates.find? fun p => r.lt (.scaled 1 10 p)).getD (guess + 2)

/-- The distance from `r` to `count * 10 ^ place`, times a common denominator. -/
def distance (r : Ratio) (count : Nat) (place : Int) : Nat :=
  let g := Ratio.scaled count 10 place
  let a := r.numerator * g.denominator
  let b := g.numerator * r.denominator
  if a ≤ b then b - a else a - b

/-- The decimal of `size` digits nearest to `r`, if it lies in the interval. -/
def candidate? (r : Ratio) (i : Interval) (point : Int) (size : Nat) : Option Nat :=
  let place := point - size
  let unit := Ratio.scaled 1 10 place
  let below := r.numerator * unit.denominator / (r.denominator * unit.numerator)
  let lowFits := i.contains (.scaled below 10 place)
  let highFits := i.contains (.scaled (below + 1) 10 place)
  if lowFits && highFits then
    let (l, h) := (distance r below place, distance r (below + 1) place)
    if l < h then some below
    else if h < l then some (below + 1)
    else some (if below % 2 = 0 then below else below + 1)
  else if lowFits then some below
  else if highFits then some (below + 1)
  else none

/-- Seventeen digits always suffice. -/
def shortest? (mantissa : Nat) (exponent : Int) : Option Digits :=
  if mantissa = 0 then none
  else
    let r := Ratio.scaled mantissa 2 exponent
    let i := Interval.around mantissa exponent
    let point := pointAbove r mantissa exponent
    (List.range' 1 17).findSome? fun size =>
      (candidate? r i point size).map fun digits =>
        if digits = Nat.pow 10 size then ⟨1, point + 1⟩ else ⟨digits, point⟩

end ClassCoupling.Decimal
