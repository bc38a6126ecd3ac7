/-!
# Notices

What a run tells while it works.
-/

namespace ClassCoupling

inductive Notice where
  | report (text : String)
  | progress (current total : Nat) (label : Option String)
  | error (text : String)
  | completion (text : String)
  deriving DecidableEq, Repr

end ClassCoupling
