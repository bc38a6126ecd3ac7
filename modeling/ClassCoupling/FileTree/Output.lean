import ClassCoupling.FileTree.Guard
import ClassCoupling.Problem

/-!
# Writing a report

The directory has to exist, and a report is never written through a symbolic link.
-/

namespace ClassCoupling.FileTree

def requireParent (t : FileTree) (path : String) : Except String Unit :=
  match Path.parent? path with
  | some parent =>
    if parent ≠ "" && !t.isDirectory parent then
      .error ("Parent directory does not exist: " ++ Path.shown parent)
    else .ok ()
  | none => .ok ()

def requireNoOutputLink (t : FileTree) (path : String) : Except String Unit :=
  match t.find false path with
  | .error _ => .ok ()
  | .ok _ => (t.requireNoLink "write" path).mapError (·.message)

/-- Writes a report to a path. The files are given back with the outcome, whatever that is. -/
def writeReport (t : FileTree) (path content : String) : FileTree × Except Problem Unit :=
  let refused (t : FileTree) (details : String) : FileTree × Except Problem Unit :=
    (t, .error (.unwritableFile (Path.shown path) details))
  match t.requireParent path with
  | .error details => refused t details
  | .ok () =>
    match t.requireNoOutputLink path with
    | .error details => refused t details
    | .ok () =>
      match t.write path content.toUTF8 with
      | (t, .error error) => refused t error.describe
      | (t, .ok ()) => (t, .ok ())

end ClassCoupling.FileTree
