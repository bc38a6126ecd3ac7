import ClassCoupling.Snapshot.Graph

/-!
# Excused dependencies

Some references close a cycle without being a design problem: an inner unit refers to its outer
unit, a factory builds what lies in a namespace below its own, a test suite lists tests or suites
below its own. An arc is excused if one rule covers every reference behind it.
-/

namespace ClassCoupling

inductive Excuse where
  | innerToOuter
  | factory
  | testSuite
  deriving DecidableEq, Repr

namespace Excuse

def all : List Excuse := [innerToOuter, factory, testSuite]

def suiteMarkers : List String :=
  ["org.junit.runner.RunWith", "org.junit.platform.suite.api.Suite"]

def testMarkers : List String := ["org.junit.Test", "org.junit.jupiter.api.Test"]

/-- Whether a leaf refers to the unit of that name, be it in the tree or missing. -/
def refersTo (t : Tree) (leaf : NodeId) (unit : String) : Bool :=
  ((t.uses leaf).any fun used => t.displayName used = unit) || (t.missing leaf).contains unit

def isSuite (t : Tree) (leaf : NodeId) : Bool := suiteMarkers.any (refersTo t leaf)

def isTest (t : Tree) (leaf : NodeId) : Bool := testMarkers.any (refersTo t leaf)

def isFactory (t : Tree) (leaf : NodeId) : Bool :=
  t.isLeaf leaf && Text.endsWith "Factory" (t.displayName leaf)

/-- Whether a leaf is an inner unit of another one beside it, told by the last dollar sign. -/
def isInnerOf (t : Tree) (source target : NodeId) : Bool :=
  t.isLeaf source && t.isLeaf target && t.parent? source = t.parent? target &&
    (Text.atLast? '$' (t.name source)).any fun (outer, _) => outer = t.name target

/-- Whether the container of the target lies below that of the source. -/
def pointsDown (t : Tree) (source target : NodeId) : Bool :=
  match t.parent? source, t.parent? target with
  | some above, some below => t.isAncestor above below
  | _, _ => false

def holds (t : Tree) (source target : NodeId) : Excuse → Bool
  | innerToOuter => isInnerOf t source target
  | factory => isFactory t source && pointsDown t source target
  | testSuite =>
    isSuite t source && (isSuite t target || isTest t target) && pointsDown t source target

def coversReference (t : Tree) (source target : NodeId) : Bool :=
  all.any (holds t source target)

/-- The rule that covers every reference behind an arc, if there is one and there is a reference. -/
def ofArc? (t : Tree) (source target : NodeId) : Option Excuse :=
  let reasons := t.reasons source target
  if reasons = [] then none
  else all.find? fun rule => reasons.all fun (leaf, used) => rule.holds t leaf used

def coversArc (t : Tree) (source target : NodeId) : Bool := (ofArc? t source target).isSome

end Excuse

namespace Snapshot

/-- The arcs between noted numbers that the entries there excuse. -/
def excusedArcs (t : Tree) (s : Snapshot) : List (Nat × Nat) :=
  s.placedArcs.filter fun arc =>
    match s.entries[arc.1]?, s.entries[arc.2]? with
    | some source, some target => Excuse.coversArc t source.node target.node
    | _, _ => false

def dropExcused (t : Tree) (s : Snapshot) : Snapshot := s.unlinkAll (s.excusedArcs t)

/-- Drops the excused arcs and counts them, by the numbers noted whether or not they are up to date.
A number with no entry is out of range. -/
def removeExcusedArcs (t : Tree) (s : Snapshot) : Except Misuse (Snapshot × Nat) :=
  if s.placedArcs.all fun arc => arc.2 < s.size then
    .ok (s.dropExcused t, (s.excusedArcs t).length)
  else .error .outOfRange

/-- Drops the excused arcs of a numbered snapshot and counts them. -/
def removeExcused (t : Tree) (s : Snapshot) : Except Misuse (Snapshot × Nat) := do
  s.requireNumberedEntries
  s.removeExcusedArcs t

end Snapshot

end ClassCoupling
