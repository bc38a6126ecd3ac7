import ClassCoupling.Digraph.Components
import ClassCoupling.Snapshot.Graph

/-!
# Cycles of a snapshot
-/

namespace ClassCoupling.Snapshot

/-- All components of a snapshot, the position of the one that holds each number, and those that are
cycles. -/
structure Components (n : Nat) where
  all : List (List (Fin n))
  table : Vector Nat n
  cyclic : List (List (Fin n))
  deriving DecidableEq, Repr

def components (s : Snapshot) : Components s.size :=
  let g := s.digraph .forward
  let all := g.components
  ⟨all, Digraph.componentTable all, all.filter g.isCycle⟩

namespace Components

variable {n : Nat}

def componentOf (c : Components n) (i : Fin n) : Nat := c.table.get i

/-- The cycles, largest first; those of one size in the order of the components. -/
def cycles (c : Components n) : List (List (Fin n)) :=
  c.cyclic.mergeSort fun a b => b.length ≤ a.length

def hasCycles (c : Components n) : Bool := !c.cyclic.isEmpty

end Components

def findComponents (s : Snapshot) : Except Misuse (Components s.size) := do
  s.requireNumberedEntries
  return s.components

/-- The entries on cycles, without the arcs from one component to another. -/
def cyclicPart (s : Snapshot) : Snapshot :=
  let found := s.components
  let members := found.cyclic.flatten
  let owners := members.map found.componentOf
  let cycles := s.restrict (s.entriesOf members)
  cycles.unlinkAll (cycles.placedArcs.filter fun arc => owners[arc.1]? ≠ owners[arc.2]?)

/-- The entries of each cycle, the largest cycle first. -/
def cycles (s : Snapshot) : List (List Entry) := s.components.cycles.map s.entriesOf

def findCyclicPart (s : Snapshot) : Except Misuse Snapshot := do
  s.requireNumberedEntries
  return s.cyclicPart

end ClassCoupling.Snapshot
