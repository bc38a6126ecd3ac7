import ClassCoupling.Text.Cut
import ClassCoupling.Tree.Basic

/-!
# Names in the tree

The full name of a node joins the names on the way from the root with dots. A name is looked up one
segment at a time.
-/

namespace ClassCoupling.Tree

def fullName (t : Tree) (id : NodeId) : String :=
  match t.parent? id with
  | some p =>
    if p < id then
      let above := t.fullName p
      if above = "" then t.name id else above ++ "." ++ t.name id
    else t.name id
  | none => t.name id
termination_by id

/-- The full name without the segment of its input, which is told by a colon. For a leaf this is the
name of its unit. -/
def displayName (t : Tree) (id : NodeId) : String :=
  let full := t.fullName id
  match Text.atFirst? '.' full with
  | some (source, rest) => if source.toList.contains ':' then rest else full
  | none => full

/-- The name of a node as seen from itself or from one of its ancestors. -/
def relativeName? (t : Tree) (id ancestor : NodeId) : Option String :=
  if ancestor = id ∨ t.parent? id = some ancestor then some (t.name id)
  else
    match t.parent? id with
    | some p =>
      if p < id then (t.relativeName? p ancestor).map fun above => above ++ "." ++ t.name id
      else none
    | none => none
termination_by id

/-- The node a path leads to from `start`, whatever is shown; the empty path leads nowhere. -/
def find? (t : Tree) (start : NodeId) (path : String) : Option NodeId :=
  if path = "" then none
  else (Text.split '.' path).foldlM (fun current segment => t.child? current segment) start

def findByName? (t : Tree) (fullName : String) : Option NodeId :=
  t.find? root fullName

end ClassCoupling.Tree
