import ClassCoupling.Text.Cut
import ClassCoupling.Text.Utf8

/-!
# Paths

A path has `/` between its parts. Empty parts and inner `.` parts mean nothing, so paths are compared
and taken apart by their components. To the system a path is a row of bytes and need not be text; there
each of its characters stands for one byte.
-/

namespace ClassCoupling.Path

inductive Component where
  | root
  /-- A `.` in front of everything. -/
  | current
  | parent
  | normal (name : String)
  deriving DecidableEq, Repr

def isTrivial (part : String) : Bool := part = "" || part = "."

def componentOfPart? (part : String) : Option Component :=
  if isTrivial part then none else if part = ".." then some .parent else some (.normal part)

/-- Cuts off the leading `/`, or the leading `.` if that is a part of its own. -/
def splitHead (path : String) : Option Component × String :=
  match path.toList with
  | '/' :: rest => (some .root, String.ofList rest)
  | ['.'] => (some .current, "")
  | '.' :: '/' :: rest => (some .current, String.ofList ('/' :: rest))
  | _ => (none, path)

def components (path : String) : List Component :=
  let (head, body) := splitHead path
  head.toList ++ (Text.split '/' body).filterMap componentOfPart?

def isAbsolute (path : String) : Bool := Text.startsWith "/" path

/-- Whether two paths have the same components. -/
def same (a b : String) : Bool := components a = components b

/-- The last component, if it is a name. -/
def fileName? (path : String) : Option String :=
  match (components path).getLast? with
  | some (.normal name) => some name
  | _ => none

/-- Cuts a file name at its last dot, unless nothing stands before that. -/
def splitExtension (name : String) : String × Option String :=
  match Text.atLast? '.' name with
  | some (stem, extension) => if stem = "" then (name, none) else (stem, some extension)
  | none => (name, none)

def stem (name : String) : String := (splitExtension name).1

def extension? (path : String) : Option String :=
  (fileName? path).bind fun name => (splitExtension name).2

def dropTrivialEnd (parts : List String) : List String :=
  (parts.reverse.dropWhile isTrivial).reverse

/-- The path without its last component, as it is written. -/
def parent? (path : String) : Option String :=
  let (head, body) := splitHead path
  match dropTrivialEnd (Text.split '/' body), head with
  | [], some .current => some ""
  | [], _ => none
  | parts, head =>
    let headText :=
      match head with
      | some .root => "/"
      | some .current => "."
      | _ => ""
    some (headText ++ Text.join "/" (dropTrivialEnd parts.dropLast))

/-- The path of `name` as seen from `directory`. -/
def join (directory name : String) : String :=
  if isAbsolute name || directory = "" then name
  else if Text.endsWith "/" directory then directory ++ name
  else directory ++ "/" ++ name

/-! ## Bytes and text -/

/-- The path that is written as a text: a character for each of its bytes. -/
def ofText (text : String) : String :=
  String.ofList ((Text.Utf8.encode text).map fun b => Char.ofNat b.toNat)

/-- A path, or a part of one, as text. What is no UTF-8 in it is replaced. -/
def shown (path : String) : String :=
  Text.Utf8.decode (path.toList.map fun c => UInt8.ofNat c.toNat)

end ClassCoupling.Path
