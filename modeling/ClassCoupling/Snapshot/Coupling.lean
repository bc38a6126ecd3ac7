import ClassCoupling.Snapshot.Graph

/-!
# Transitive coupling

How many entries each entry reaches and how many reach it, itself included. The sum of the first
counts is compared with that of a balanced binary tree of the same size.
-/

namespace ClassCoupling

/-- The sum of the subtree sizes of a balanced binary tree with `n` nodes: the root counts all of
them, and the rest is halved. -/
def balancedCoupling (n : Nat) : Nat :=
  match n with
  | 0 => 0
  | rest + 1 => rest + 1 + balancedCoupling (rest - rest / 2) + balancedCoupling (rest / 2)
termination_by n

structure Coupling where
  dependsOn : List Nat
  usedBy : List Nat
  deriving DecidableEq, Repr

namespace Coupling

def size (c : Coupling) : Nat := c.dependsOn.length

/-- What each entry depends on and is used by, taken together. -/
def perEntry (c : Coupling) : List Nat := List.zipWith (· + ·) c.dependsOn c.usedBy

def cumulative (c : Coupling) : Nat := total c.dependsOn

def average (c : Coupling) : Float :=
  if c.size = 0 then 0.0 else c.cumulative.toFloat / c.size.toFloat

def relative (c : Coupling) : Float :=
  let baseline := balancedCoupling c.size
  if baseline = 0 then 0.0 else c.cumulative.toFloat / baseline.toFloat

/-- The most coupled entries with their coupling, highest first: a fifth of all, but at least one
and at most five. -/
def worst (c : Coupling) : List (Nat × Nat) :=
  let ranked := c.perEntry.mapIdx (fun index coupling => (index, coupling))
  (ranked.mergeSort fun a b => b.2 ≤ a.2).take (max 1 (min 5 (c.size / 5)))

end Coupling

namespace Snapshot

def coupling (s : Snapshot) : Coupling :=
  let reach (direction : Direction) : List Nat :=
    let g := s.digraph direction
    (List.finRange s.size).map fun i => (g.breadthFirst i).length
  ⟨reach .forward, reach .backward⟩

def findCoupling (s : Snapshot) : Except Misuse Coupling := do
  s.requireNumberedEntries
  return s.coupling

end Snapshot

end ClassCoupling
