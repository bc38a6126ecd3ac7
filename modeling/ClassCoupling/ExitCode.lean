/-!
# Exit codes
-/

namespace ClassCoupling

inductive ExitCode where
  | success
  | cyclesDetected
  | invalidArguments
  | applicationError
  deriving DecidableEq, Repr

namespace ExitCode

def all : List ExitCode := [success, cyclesDetected, invalidArguments, applicationError]

def number : ExitCode → Nat
  | success => 0
  | cyclesDetected => 1
  | invalidArguments => 2
  | applicationError => 3

def describe : ExitCode → String
  | success => "Success (0)"
  | cyclesDetected => "Cycles Detected (1)"
  | invalidArguments => "Invalid Arguments (2)"
  | applicationError => "Application Error (3)"

end ExitCode

end ClassCoupling
