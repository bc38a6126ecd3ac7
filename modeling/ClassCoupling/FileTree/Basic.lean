import ClassCoupling.Path

/-!
# File trees

Files, directories and symbolic links as a value, with what a program may not do to them. A location
is the list of names on the way from the root; a path is resolved to a location by following its
parts, and the links on the way.
-/

namespace ClassCoupling

/-- Why the system refuses to use a path, or to read text there. -/
inductive SystemError where
  | notFound
  | notDirectory
  | isDirectory
  | nameTooLong
  | tooManyLinks
  | permissionDenied
  | nulInPath
  | invalidText
  deriving DecidableEq, Repr

def SystemError.describe : SystemError → String
  | notFound => "No such file or directory (os error 2)"
  | notDirectory => "Not a directory (os error 20)"
  | isDirectory => "Is a directory (os error 21)"
  | nameTooLong => "File name too long (os error 36)"
  | tooManyLinks => "Too many levels of symbolic links (os error 40)"
  | permissionDenied => "Permission denied (os error 13)"
  | nulInPath => "file name contained an unexpected NUL byte"
  | invalidText => "stream did not contain valid UTF-8"

namespace FileTree

abbrev Location := List String

inductive Item where
  | file (content : ByteArray)
  | directory
  | link (target : String)

/-- The size of a file in bytes. -/
def Item.size : Item → Nat
  | file content => content.size
  | _ => 0

/-- What a program can be allowed: to read a file or list a directory, to change what a file or a
directory holds, and to look names up in a directory. -/
inductive Right where
  | read
  | write
  | search
  deriving DecidableEq, Repr

end FileTree

structure FileTree where
  items : List (FileTree.Location × FileTree.Item)
  /-- Where relative paths start. -/
  workingDirectory : FileTree.Location
  /-- What is not allowed, and where. -/
  denied : List (FileTree.Location × FileTree.Right) := []

namespace FileTree

/-- The item at a location; the root is always a directory. -/
def at? (t : FileTree) (location : Location) : Option Item :=
  if location = [] then some .directory else t.items.lookup location

def isDirectoryAt (t : FileTree) (location : Location) : Bool :=
  match t.at? location with
  | some .directory => true
  | _ => false

def permits (t : FileTree) (right : Right) (location : Location) : Bool :=
  !t.denied.contains (location, right)

def require (t : FileTree) (right : Right) (location : Location) : Except SystemError Unit :=
  if t.permits right location then .ok () else .error .permissionDenied

/-- Puts an item at a location, in place of what was there. -/
def put (location : Location) (item : Item) (t : FileTree) : FileTree :=
  { t with items := t.items.filter (·.1 ≠ location) ++ [(location, item)] }

/-! ## Resolving paths -/

/-- Longest name of a file, in bytes. -/
def maxNameLength : Nat := 255

/-- Longest path, in bytes. -/
def maxPathLength : Nat := 4095

/-- The most links followed on one way. -/
def maxLinks : Nat := 40

/-- Where the parts of a path that is met at a location are looked up from. -/
def startOf (current : Location) (path : String) : Location :=
  if Path.isAbsolute path then [] else current

/-- Follows the parts of a path from a location, with `links` links to go. Every part but an empty one
is looked up, which has to be allowed. A link at the very end is followed only on request. -/
def follow (t : FileTree) (followLast : Bool) (links : Nat) (current : Location)
    (parts : List String) : Except SystemError Location :=
  match parts with
  | [] => .ok current
  | part :: rest =>
    if !t.isDirectoryAt current then .error .notDirectory
    else if part ≠ "" && !t.permits .search current then .error .permissionDenied
    else if Path.isTrivial part then t.follow followLast links current rest
    else if part = ".." then t.follow followLast links current.dropLast rest
    else if maxNameLength < part.length then .error .nameTooLong
    else
      let next := current ++ [part]
      match t.at? next with
      | none => .error .notFound
      | some (.link target) =>
        if rest = [] ∧ !followLast then .ok next
        else
          match links with
          | 0 => .error .tooManyLinks
          | links + 1 =>
            t.follow followLast links (startOf current target) (Text.split '/' target ++ rest)
      | some _ => t.follow followLast links next rest
termination_by (links, parts.length)

/-- The parts of a path that the system takes. -/
def partsOf (path : String) : Except SystemError (List String) :=
  if path = "" then .error .notFound
  else if path.toList.contains '\x00' then .error .nulInPath
  else if maxPathLength < path.length then .error .nameTooLong
  else .ok (Text.split '/' path)

/-- The location a path leads to. A slash at the end is a last, trivial part: what is before it has
to be a directory. -/
def resolve (t : FileTree) (followLast : Bool) (path : String) : Except SystemError Location := do
  t.follow followLast maxLinks (startOf t.workingDirectory path) (← partsOf path)

/-- The item a path names. -/
def find (t : FileTree) (followLast : Bool) (path : String) : Except SystemError Item := do
  let location ← t.resolve followLast path
  match t.at? location with
  | some item => .ok item
  | none => .error .notFound

def pathExists (t : FileTree) (path : String) : Bool := (t.find true path).isOk

/-- Whether a path leads to a directory, be it through links. -/
def isDirectory (t : FileTree) (path : String) : Bool :=
  match t.find true path with
  | .ok .directory => true
  | _ => false

def read (t : FileTree) (path : String) : Except SystemError ByteArray := do
  let location ← t.resolve true path
  match t.at? location with
  | none => throw .notFound
  | some item =>
    t.require .read location
    match item with
    | .file content => return content
    | _ => throw .isDirectory

def readText (t : FileTree) (path : String) : Except SystemError String := do
  match String.fromUTF8? (← t.read path) with
  | some text => .ok text
  | none => .error .invalidText

/-! ## Writing -/

/-- Where the parts of a path that is met at a location lead a writer to, with `links` links to go:
to what is there, or to a free name in a directory. A link at the end is followed like any other. A
path that can only name a directory is refused: its last name is a dot or two, or slashes follow
it. -/
def followToWrite (t : FileTree) (links : Nat) (current : Location) (parts : List String) :
    Except SystemError Location :=
  match parts with
  | [] => .error .isDirectory
  | part :: rest =>
    if !t.isDirectoryAt current then .error .notDirectory
    else if part ≠ "" && !t.permits .search current then .error .permissionDenied
    else if rest.all (· = "") && (Path.isTrivial part || part = ".." || rest ≠ []) then
      .error .isDirectory
    else if Path.isTrivial part then t.followToWrite links current rest
    else if part = ".." then t.followToWrite links current.dropLast rest
    else if maxNameLength < part.length then .error .nameTooLong
    else
      let next := current ++ [part]
      match t.at? next with
      | none => if rest = [] then .ok next else .error .notFound
      | some (.link target) =>
        match links with
        | 0 => .error .tooManyLinks
        | links + 1 =>
          t.followToWrite links (startOf current target) (Text.split '/' target ++ rest)
      | some _ => if rest = [] then .ok next else t.followToWrite links next rest
termination_by (links, parts.length)

/-- The location at which a file is written, in a directory that is there. -/
def creationPlace (t : FileTree) (path : String) : Except SystemError Location := do
  t.followToWrite maxLinks (startOf t.workingDirectory path) (← partsOf path)

/-- A file that is there has to allow to be written, and for a new one its directory. -/
def requireWritable (t : FileTree) (location : Location) : Except SystemError Unit :=
  match t.at? location with
  | some .directory => .error .isDirectory
  | some _ => t.require .write location
  | none => t.require .write location.dropLast

/-- Where a file is opened to be written. -/
def writingPlace (t : FileTree) (path : String) : Except SystemError Location := do
  let location ← t.creationPlace path
  t.requireWritable location
  return location

/-- Opens a file to be written, which makes or empties it. -/
def openToWrite (t : FileTree) (path : String) : FileTree × Except SystemError Location :=
  match t.writingPlace path with
  | .error error => (t, .error error)
  | .ok location => (t.put location (.file .empty), .ok location)

def write (t : FileTree) (path : String) (content : ByteArray) :
    FileTree × Except SystemError Unit :=
  match t.openToWrite path with
  | (t, .error error) => (t, .error error)
  | (t, .ok location) => (t.put location (.file content), .ok ())

/-! ## Building -/

/-- Makes the directories along `parts`, following what is there already. -/
def makeDirectories (t : FileTree) (current : Location) : List String → FileTree × Location
  | [] => (t, current)
  | part :: rest =>
    if Path.isTrivial part then t.makeDirectories current rest
    else if part = ".." then t.makeDirectories current.dropLast rest
    else
      match t.follow true maxLinks current [part] with
      | .ok next => t.makeDirectories next rest
      | .error _ =>
        let next := current ++ [part]
        (t.put next .directory).makeDirectories next rest

/-- Adds a directory and everything it lies in. -/
def addDirectory (path : String) (t : FileTree) : FileTree :=
  (t.makeDirectories (startOf t.workingDirectory path) (Text.split '/' path)).1

/-- Adds an item and the directories it lies in. -/
def add (path : String) (item : Item) (t : FileTree) : FileTree :=
  let parts := Text.split '/' path
  let (t, directory) := t.makeDirectories (startOf t.workingDirectory path) parts.dropLast
  t.put (directory ++ [parts.getLastD ""]) item

/-- A working directory with nothing in it. -/
def empty (workingDirectory : Location) : FileTree :=
  ({ items := [], workingDirectory : FileTree }.makeDirectories [] workingDirectory).1

/-! ## Directories -/

/-- Everything below a location, by the names on the way from there: in each directory by name, and
what a directory holds right after it. -/
def below (t : FileTree) (location : Location) : List (Location × Item) :=
  let inside := t.items.filterMap fun (place, item) =>
    if location.isPrefixOf place && place ≠ location then some (place.drop location.length, item)
    else none
  inside.mergeSort fun a b => !List.lex b.1 a.1 (· < ·)

/-- Whether a walk from a location meets what the names lead to. It lists every directory on the way,
and looks a name up in all of them but the last. -/
def isMet (t : FileTree) (location : Location) : List String → Bool
  | [] => true
  | [_] => t.permits .read location
  | name :: next :: rest =>
    t.permits .read location && t.permits .search location &&
      t.isMet (location ++ [name]) (next :: rest)

/-- What a walk from a location meets below it, in order. -/
def walk (t : FileTree) (location : Location) : List (Location × Item) :=
  (t.below location).filter fun visit => t.isMet location visit.1

end FileTree

end ClassCoupling
