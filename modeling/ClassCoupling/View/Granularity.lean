import ClassCoupling.Text.Cut
import ClassCoupling.Text.Keyword
import ClassCoupling.Tree.Walk

/-!
# Granularity

A granularity sets the list mode of every container at once. An archive stays closed whatever the
granularity.
-/

namespace ClassCoupling

inductive Granularity where
  /-- Single units. -/
  | classes
  /-- Packages with their units merged. -/
  | packages
  /-- One node per input. -/
  | archives
  deriving DecidableEq, Repr, Inhabited

namespace Granularity

def all : List Granularity := [classes, packages, archives]

def describe : Granularity → String
  | classes => "classes"
  | packages => "packages"
  | archives => "archives"

/-- The granularity of that name, given in the plural or the singular. -/
def ofString? (s : String) : Option Granularity :=
  if Text.isKeyword "classes" s || Text.isKeyword "class" s then some classes
  else if Text.isKeyword "packages" s || Text.isKeyword "package" s then some packages
  else if Text.isKeyword "archives" s || Text.isKeyword "archive" s then some archives
  else none

/-- The list mode of a container. -/
def modeFor (t : Tree) (container : NodeId) (granularity : Granularity) : ListMode :=
  let topLevel : Bool := t.parent? container = some Tree.root
  if topLevel && Text.startsWith "jar:" (t.name container) then .collapsed
  else
    match granularity with
    | classes => .expanded
    | packages => .leafsCollapsed
    | archives => if topLevel then .collapsed else .expanded

/-- Sets every container's list mode and counts the changes. -/
def apply (t : Tree) (granularity : Granularity) : Tree × Nat :=
  let containers := (t.walkAll Tree.root).filter fun node => !t.isLeaf node
  containers.foldl
    (fun (t, changed) container =>
      let (t, different) := t.setMode container (granularity.modeFor t container)
      (t, if different then changed + 1 else changed))
    (t, 0)

end Granularity

end ClassCoupling
