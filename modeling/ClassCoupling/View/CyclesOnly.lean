import ClassCoupling.Excuse
import ClassCoupling.Snapshot.Cycles
import ClassCoupling.View.Basic

/-!
# The view of the cycles
-/

namespace ClassCoupling

/-- The part of a snapshot that lies on cycles without excused arcs. Dropping those may break a
component up, so the components are found twice. -/
def Snapshot.unexcusedCycles (t : Tree) (s : Snapshot) : Snapshot :=
  (s.cyclicPart.dropExcused t).cyclicPart

def View.cyclesOnly : View where
  name := "cycles only"
  applicable _ _ := .ok true
  apply t s :=
    match s.requireNumberedEntries with
    | .ok () => .ok (s.unexcusedCycles t)
    | .error cause => .error (.misuse cause)

end ClassCoupling
