import ClassCoupling.View.Basic

/-!
# The view from one node
-/

namespace ClassCoupling.View

/-- Everything a node requires, or everything that depends on it. -/
def reachability (fullName : String) (direction : Direction) : View where
  name :=
    match direction with
    | .forward => "required by " ++ fullName
    | .backward => "depending on " ++ fullName
  applicable t s := (s.find t fullName).map (·.isSome)
  apply t s :=
    match s.find t fullName with
    | .ok (some start) => .ok (s.reachable start direction)
    | .ok none => .error (.problem (.unknownNode fullName))
    | .error cause => .error (.misuse cause)

end ClassCoupling.View
