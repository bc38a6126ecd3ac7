import ClassCoupling.Decimal.Shortest

/-!
# Floats with the fewest digits

The shortest decimal that reads back as the same float. It is written out in full, with at least one
place, if the value is zero or at least `10 ^ -5` and less than `10 ^ 16`; otherwise with an exponent
that always has a sign.
-/

namespace ClassCoupling.Decimal

/-- Writes `0.d₁d₂… * 10 ^ point` out. -/
def positional (digits : String) (point : Int) : String :=
  if point ≤ 0 then "0." ++ String.ofList (List.replicate (-point).toNat '0') ++ digits
  else
    let whole := point.toNat
    let padded := digits ++ String.ofList (List.replicate (whole - digits.length) '0')
    let places := padded.toList.drop whole
    String.ofList (padded.toList.take whole) ++ "." ++
      if places.isEmpty then "0" else String.ofList places

/-- One digit before the point. -/
def withExponent (digits : String) (point : Int) : String :=
  let exponent := point - 1
  let sign := if exponent < 0 then "-" else "+"
  let places := digits.toList.drop 1
  String.ofList (digits.toList.take 1) ++
    (if places.isEmpty then "" else "." ++ String.ofList places) ++
    "e" ++ sign ++ toString exponent.natAbs

/-- The text of a finite float. -/
def shortestText? (bits : UInt64) : Option String :=
  let x := Binary64.ofBits bits
  let sign := if x.negative then "-" else ""
  match x.magnitude with
  | .finite mantissa exponent =>
    match shortest? mantissa exponent with
    | none => some (sign ++ "0.0")
    | some d =>
      let digits := toString d.digits
      some (sign ++
        if -5 < d.point ∧ d.point ≤ 16 then positional digits d.point
        else withExponent digits d.point)
  | _ => none

end ClassCoupling.Decimal
