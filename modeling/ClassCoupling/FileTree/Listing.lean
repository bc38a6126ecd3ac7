import ClassCoupling.FileTree.Basic

/-!
# Listings of files

A line for each item: a letter for its kind, its path and, for a link, where it leads, with tabs
between them.
-/

namespace ClassCoupling.FileTree

inductive Listed where
  | file (path : String)
  | directory (path : String)
  | link (path target : String)
  deriving DecidableEq, Repr

def Listed.ofLine? (line : String) : Option Listed :=
  match Text.split '\t' line with
  | "f" :: path :: _ => some (.file path)
  | "d" :: path :: _ => some (.directory path)
  | ["l", path, target] => some (.link path target)
  | _ => none

/-- Adds what is listed; the content of a file is given. -/
def addListed (t : FileTree) (content : ByteArray) : Listed → FileTree
  | .file path => t.add (Path.ofText path) (.file content)
  | .directory path => t.addDirectory (Path.ofText path)
  | .link path target => t.add (Path.ofText path) (.link (Path.ofText target))

end ClassCoupling.FileTree
