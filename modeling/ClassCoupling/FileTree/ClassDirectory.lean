import ClassCoupling.FileTree.Guard
import ClassCoupling.Scan.Inputs

/-!
# Directories of compiled classes

The name of a unit follows from the place of its file below the directory. Links inside the
directory are not followed, module descriptors are no units, and what cannot be read is passed over.
-/

namespace ClassCoupling.FileTree

/-- Largest class file that is read, in bytes. -/
def maxUnitSize : Nat := 16 * 1024 * 1024

def isClassDirectory (t : FileTree) (path : String) : Bool :=
  match t.find false path with
  | .ok .directory => true
  | _ => false

/-- The name of the input: the last name of the path, or of where it leads, as a single segment. -/
def inputName (t : FileTree) (path : String) : String :=
  let resolved := ((t.resolve true path).toOption.bind (·.getLast?)).getD "classes"
  "dir:" ++ Text.replace '.' '_' (Path.shown ((Path.fileName? path).getD resolved))

/-- A file name without its extension. Nothing is left of a name whose only other part is a dot, so
that one keeps both its dots. -/
def bareName (name : String) : String :=
  match Path.splitExtension name with
  | (".", some _) => ".."
  | (stem, _) => stem

/-- The dotted name of the unit in a file, given by the names on the way to it. -/
def unitName (names : Location) : String :=
  Text.join "." ((names.dropLast ++ [bareName (names.getLastD "")]).map Path.shown)

def isUnitFile (name : String) : Bool :=
  match Path.splitExtension name with
  | (stem, extension) => extension = some "class" && stem ≠ "module-info"

/-- The content of a class file, which has to be regular and of a reasonable size. -/
def readUnit (t : FileTree) (file : String) : Except Failure ByteArray := do
  (t.requireFile "Compiled unit" file).mapError .guard
  let unreadable (error : SystemError) : Failure :=
    .problem (.unreadableFile (Path.shown file) error.describe)
  let item ← (t.find true file).mapError unreadable
  (requireSize file item.size maxUnitSize).mapError .guard
  (t.read file).mapError unreadable

/-- The unit in the file at `names` below the directory `path`, if it can be read. -/
def rawUnit? (t : FileTree) (path : String) : Location × Item → Option Scan.RawUnit
  | (names, .file _) =>
    let file := Path.join path (Text.join "/" names)
    if isUnitFile (names.getLastD "") then
      (t.readUnit file).toOption.map fun content =>
        ⟨Path.shown file, unitName names, content.toList⟩
    else none
  | _ => none

/-- The units below a directory. -/
def loadClasses (t : FileTree) (path : String) : Except Failure Scan.LoadedInput := do
  (t.requireNoLink "scan" path).mapError .guard
  if !t.isDirectory path then throw (.problem (.invalidInput (Path.shown path) "Not a directory"))
  let location := (t.resolve true path).toOption.getD []
  return ⟨t.inputName path, (t.walk location).filterMap (t.rawUnit? path)⟩

/-- Class directories as inputs of a scan. -/
def classSource (t : FileTree) : Scan.Source where
  supports path := t.isClassDirectory (Path.ofText path)
  pathExists path := t.pathExists (Path.ofText path)
  load path := t.loadClasses (Path.ofText path)

end ClassCoupling.FileTree
