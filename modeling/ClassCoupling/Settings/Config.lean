/-!
# Configuration
-/

namespace ClassCoupling

/-- The settings a configuration file can hold. -/
structure Config where
  format : Option String := none
  view : Option String := none
  /-- Patterns added to those of the units that are ignored. -/
  ignoredClasses : Option (List String) := none
  /-- Patterns in place of those of the inputs that are ignored. -/
  ignoredSources : Option (List String) := none
  focus : Option (List String) := none
  failOnCycles : Option Bool := none
  /-- The keys that mean nothing, sorted. -/
  unknown : List String := []
  deriving DecidableEq, Repr

end ClassCoupling
