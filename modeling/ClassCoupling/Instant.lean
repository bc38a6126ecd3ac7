import ClassCoupling.Decimal.Fixed

/-!
# Instants

A point in time as it is written in a report: date and time in the proleptic Gregorian calendar, with
as many places of a second as it needs in groups of three.
-/

namespace ClassCoupling

structure Instant where
  /-- Since the beginning of 1970. -/
  nanoseconds : Nat
  deriving DecidableEq, Repr

namespace Instant

def isLeap (year : Nat) : Bool := year % 4 = 0 && (year % 100 ≠ 0 || year % 400 = 0)

def monthLengths (year : Nat) : List Nat :=
  [31, if isLeap year then 29 else 28, 31, 30, 31, 30, 31, 31, 30, 31, 30, 31]

/-- The year that a number of days after the beginning of a year leads to, and the days left. -/
def yearOf (year days : Nat) : Nat × Nat :=
  let length := if isLeap year then 366 else 365
  if length ≤ days then yearOf (year + 1) (days - length) else (year, days)
termination_by days
decreasing_by grind

/-- The month, from one, and the day in it, from zero. -/
def monthOf (month days : Nat) : List Nat → Nat × Nat
  | [] => (month, days)
  | length :: rest => if length ≤ days then monthOf (month + 1) (days - length) rest else (month, days)

def padded (width n : Nat) : String := Decimal.padLeft width (toString n)

def fraction (nanoseconds : Nat) : String :=
  if nanoseconds = 0 then ""
  else if nanoseconds % 1000000 = 0 then "." ++ padded 3 (nanoseconds / 1000000)
  else if nanoseconds % 1000 = 0 then "." ++ padded 6 (nanoseconds / 1000)
  else "." ++ padded 9 nanoseconds

def text (i : Instant) : String :=
  let seconds := i.nanoseconds / 1000000000
  let (year, days) := yearOf 1970 (seconds / 86400)
  let (month, day) := monthOf 1 days (monthLengths year)
  let clock := seconds % 86400
  padded 4 year ++ "-" ++ padded 2 month ++ "-" ++ padded 2 (day + 1) ++ "T" ++
    padded 2 (clock / 3600) ++ ":" ++ padded 2 (clock / 60 % 60) ++ ":" ++ padded 2 (clock % 60) ++
    fraction (i.nanoseconds % 1000000000) ++ "+00:00"

end Instant

end ClassCoupling
