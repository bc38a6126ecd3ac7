import ClassCoupling.Digraph.Traversal
import ClassCoupling.Snapshot.Basic

/-!
# Snapshots by number

Questions that are asked and answered in the numbers of the entries, and so need a numbered
snapshot.
-/

namespace ClassCoupling

/-- Which way arcs are followed. -/
inductive Direction where
  | forward
  | backward
  deriving DecidableEq, Repr, Inhabited

/-- The nodes one arc away from an entry. -/
def Entry.neighbours (entry : Entry) : Direction → List NodeId
  | .forward => entry.successors
  | .backward => entry.predecessors

namespace Snapshot

def requireNumbered (s : Snapshot) : Except Misuse Unit :=
  if s.numbered then .ok () else .error .notNumbered

/-- A question about all entries is harmless if there is none. -/
def requireNumberedEntries (s : Snapshot) : Except Misuse Unit :=
  if s.entries = [] then .ok () else s.requireNumbered

/-- The number noted for a node, if an entry stands there. -/
def place? (s : Snapshot) (node : NodeId) : Option (Fin s.size) :=
  (s.positions.lookup node).bind fun place => if h : place < s.size then some ⟨place, h⟩ else none

/-- The number of a node in the snapshot. -/
def indexOf (s : Snapshot) (node : NodeId) : Except Misuse (Option (Fin s.size)) := do
  s.requireNumbered
  return s.place? node

/-- The number of the node of that full name, if the snapshot has it. -/
def find (s : Snapshot) (t : Tree) (fullName : String) : Except Misuse (Option (Fin s.size)) :=
  match t.findByName? fullName with
  | some node => s.indexOf node
  | none => .ok none

def locate (s : Snapshot) (index : Nat) : Except Misuse (Fin s.size) :=
  if h : index < s.size then .ok ⟨index, h⟩ else .error .outOfRange

def entriesOf (s : Snapshot) (indices : List (Fin s.size)) : List Entry :=
  indices.map fun i => s.entries[i]

/-- The graph of the numbers. -/
def digraph (s : Snapshot) (direction : Direction) : Digraph s.size :=
  .ofFn fun i => (s.entries[i].neighbours direction).filterMap s.place?

def neighbours (s : Snapshot) (direction : Direction) (index : Nat) :
    Except Misuse (List (Fin s.size)) := do
  s.requireNumbered
  let entry ← s.entryAt index
  return (entry.neighbours direction).filterMap s.place?

/-- Every arc as a pair of numbers, grouped by the entry it leaves. -/
def arcs (s : Snapshot) : Except Misuse (List (Fin s.size × Fin s.size)) := do
  s.requireNumberedEntries
  let g := s.digraph .forward
  return (List.finRange s.size).flatMap fun i => (g.successors i).map fun j => (i, j)

def breadthFirst (s : Snapshot) (start : Nat) (direction : Direction) :
    Except Misuse (List (Fin s.size)) := do
  let start ← s.locate start
  s.requireNumbered
  return (s.digraph direction).breadthFirst start

def depthFirst (s : Snapshot) (start : Nat) (direction : Direction) :
    Except Misuse (List (Fin s.size)) := do
  let start ← s.locate start
  s.requireNumbered
  return (s.digraph direction).depthFirst start

/-- What is reached from an entry, in breadth-first order. -/
def reachable (s : Snapshot) (start : Fin s.size) (direction : Direction) : Snapshot :=
  s.restrict (s.entriesOf ((s.digraph direction).breadthFirst start))

end Snapshot

end ClassCoupling
