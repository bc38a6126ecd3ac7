import ClassCoupling.Problem
import ClassCoupling.Snapshot.Graph

/-!
# Views

A view narrows a snapshot to the part worth looking at. Views are stacked: each is given the result
of the one below, and one that no longer fits is dropped.
-/

namespace ClassCoupling

/-- Why a view gives no snapshot. -/
inductive View.Failure where
  | misuse (cause : Snapshot.Misuse)
  | problem (cause : Problem)
  deriving DecidableEq, Repr

structure View where
  /-- Tells views apart. -/
  name : String
  applicable : Tree → Snapshot → Except Snapshot.Misuse Bool
  apply : Tree → Snapshot → Except View.Failure Snapshot

structure ViewStack where
  /-- The views in the order in which they are applied. -/
  views : List View

namespace ViewStack

def empty : ViewStack := ⟨[]⟩

instance : Inhabited ViewStack := ⟨empty⟩

def names (stack : ViewStack) : List String := stack.views.map (·.name)

def size (stack : ViewStack) : Nat := stack.views.length

def isEmpty (stack : ViewStack) : Bool := stack.views.isEmpty

/-- Adds a view on top; false if one of that name is stacked already. -/
def push (view : View) (stack : ViewStack) : ViewStack × Bool :=
  if view.name ∈ stack.names then (stack, false) else (⟨stack.views ++ [view]⟩, true)

/-- Takes out the view of that name; false if there is none. -/
def remove (name : String) (stack : ViewStack) : ViewStack × Bool :=
  (⟨stack.views.filter (·.name ≠ name)⟩, stack.names.contains name)

/-- What a view makes of a snapshot, if it fits. -/
def attempt (t : Tree) (s : Snapshot) (view : View) : Option Snapshot :=
  match view.applicable t s with
  | .ok true => (view.apply t s).toOption
  | _ => none

/-- Applies the views from a snapshot on, giving those that fitted and the last result. -/
def applyFrom (t : Tree) : List View → Snapshot → List View × Snapshot
  | [], s => ([], s)
  | view :: views, s =>
    match attempt t s view with
    | some narrowed =>
      let (kept, last) := applyFrom t views narrowed
      (view :: kept, last)
    | none => applyFrom t views s

/-- Applies all views to a numbered copy of the snapshot and keeps those that fitted. -/
def apply (t : Tree) (s : Snapshot) (stack : ViewStack) : ViewStack × Snapshot :=
  let (kept, last) := applyFrom t stack.views (s.restrict s.entries)
  (⟨kept⟩, last)

end ViewStack

end ClassCoupling
