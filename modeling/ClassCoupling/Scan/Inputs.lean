import ClassCoupling.Failure
import ClassCoupling.Notice
import ClassCoupling.Path
import ClassCoupling.Text.Keyword

/-!
# Collecting inputs

Each input path is loaded by a source that supports it. An archive that none supports is skipped
with a warning; any other unsupported path ends the scan.
-/

namespace ClassCoupling.Scan

structure RawUnit where
  origin : String
  /-- The name the unit has to declare. -/
  name : String
  bytes : List UInt8
  deriving DecidableEq, Repr

structure LoadedInput where
  name : String
  units : List RawUnit
  deriving DecidableEq, Repr

/-- Where inputs come from. -/
structure Source where
  supports : String → Bool
  pathExists : String → Bool
  load : String → Except Failure LoadedInput

structure Request where
  /-- The inputs in the order in which they win over each other. -/
  paths : List String
  ignoredUnits : List String := UnitFilter.defaultIgnoredUnits
  ignoredSources : List String := UnitFilter.defaultIgnoredSources
  deriving DecidableEq, Repr

/-- Adds patterns to a list that does not have them yet. -/
def addPatterns (patterns more : List String) : List String :=
  more.foldl (fun patterns p => if p ∈ patterns then patterns else patterns ++ [p]) patterns

/-- A unit and the input it came with. -/
structure CollectedUnit where
  input : String
  unit : RawUnit
  deriving DecidableEq, Repr

structure Collected where
  units : List CollectedUnit := []
  inputs : List String := []
  skippedInputs : List String := []
  deriving DecidableEq, Repr

def isArchive (path : String) : Bool :=
  match Path.extension? path with
  | some extension => ["jar", "war", "ear", "zip"].any fun word => Text.isKeyword word extension
  | none => false

/-- The name itself, or the first of `name_2`, `name_3`, … that no earlier input has. One more
candidate than there are earlier inputs is enough. -/
def uniqueName (taken : List String) (name : String) : String :=
  let numbered := (List.range (taken.length + 1)).map fun k => name ++ "_" ++ toString (k + 2)
  ((name :: numbered).find? fun candidate => candidate ∉ taken).getD name

def unsupported (source : Source) (path : String) : Problem :=
  .invalidInput path
    (if source.pathExists path then "Not a directory of compiled classes"
    else "Path does not exist")

def keepsUnit (filter : UnitFilter) (unit : RawUnit) : Bool :=
  !filter.ignoresSource unit.origin && !filter.ignoresUnit unit.name

/-- Adds what was loaded from one input. -/
def Collected.add (filter : UnitFilter) (loaded : LoadedInput) (collected : Collected) :
    Collected :=
  let name := uniqueName collected.inputs loaded.name
  { collected with
    units := collected.units ++
      (loaded.units.filter (keepsUnit filter)).map fun unit => ⟨name, unit⟩
    inputs := collected.inputs ++ [name] }

/-- Takes one input path. -/
def collectPath (source : Source) (filter : UnitFilter) (path : String) (collected : Collected) :
    List Notice × Except Failure Collected :=
  if filter.ignoresSource path then ([], .ok collected)
  else if source.supports path then
    ([], (source.load path).map fun loaded => collected.add filter loaded)
  else if isArchive path then
    ([.error ("⚠️  Warning: Archive " ++ path ++ " skipped (archive content is not analysed)")],
      .ok { collected with skippedInputs := collected.skippedInputs ++ [path] })
  else ([], .error (.problem (unsupported source path)))

/-- Takes the remaining paths of `total`, the first of them being at `position`. -/
def collectFrom (source : Source) (filter : UnitFilter) (total : Nat) :
    Nat → List String → Collected → List Notice × Except Failure Collected
  | _, [], collected => ([], .ok collected)
  | position, path :: paths, collected =>
    let progress := Notice.progress position total (some path)
    match collectPath source filter path collected with
    | (notices, .ok collected) =>
      let (more, result) := collectFrom source filter total (position + 1) paths collected
      (progress :: notices ++ more, result)
    | (notices, .error failure) => (progress :: notices, .error failure)

def collect (source : Source) (filter : UnitFilter) (paths : List String) :
    List Notice × Except Failure Collected :=
  let (notices, result) := collectFrom source filter paths.length 1 paths {}
  (.report ("🔍 Scanning " ++ toString paths.length ++ " input(s)...") :: notices, result)

end ClassCoupling.Scan
