import ClassCoupling.ClassFile.Unit
import ClassCoupling.Scan.Inputs
import ClassCoupling.Tree.Creation

/-!
# Scanning a project

All units are parsed first. They are then placed in the tree below their inputs, and what they refer
to is linked by name; of several units of one name the first placed is the one that is linked to.
-/

namespace ClassCoupling.Scan

structure Skipped where
  origin : String
  reason : String
  deriving DecidableEq, Repr

structure PlacedUnit where
  leaf : NodeId
  dependencies : List String
  deriving DecidableEq, Repr

structure Project where
  tree : Tree
  found : Nat
  parsed : Nat
  duplicates : Nat
  links : Nat
  missing : Nat
  skippedUnits : List Skipped
  skippedInputs : List String
  inputs : List String
  deriving DecidableEq, Repr

/-! ## Parsing -/

structure ParsedInput where
  input : String
  origin : String
  unit : ClassFile.ParsedUnit
  deriving DecidableEq, Repr

def parseUnit (maxMajor : Nat) (collected : CollectedUnit) : Except Skipped ParsedInput :=
  match ClassFile.parse maxMajor collected.unit.name ⟨collected.unit.bytes, none⟩ with
  | .ok unit => .ok ⟨collected.input, collected.unit.origin, unit⟩
  | .error problem => .error ⟨collected.unit.origin, problem.message⟩

/-- The units that parse, and the others. -/
def parseAll (maxMajor : Nat) (units : List CollectedUnit) : List ParsedInput × List Skipped :=
  let results := units.map (parseUnit maxMajor)
  (results.filterMap fun
    | .ok parsed => some parsed
    | .error _ => none,
  results.filterMap fun
    | .ok _ => none
    | .error skipped => some skipped)

/-! ## Placing -/

structure Placement where
  tree : Tree := .empty
  /-- The leaf each name stands for. -/
  byName : List (String × NodeId) := []
  placed : List PlacedUnit := []
  duplicates : Nat := 0
  skipped : List Skipped := []
  deriving DecidableEq, Repr

/-- Whether a path already leads to a leaf. -/
def isPlaced (t : Tree) (path : String) : Bool := (t.findByName? path).any t.isLeaf

/-- Places one unit below its input. A unit placed twice counts as a duplicate, and so does one
whose name another input had before. -/
def place (p : Placement) (parsed : ParsedInput) : Placement :=
  let path := parsed.input ++ "." ++ parsed.unit.name
  if isPlaced p.tree path then { p with duplicates := p.duplicates + 1 }
  else
    match p.tree.createLeaf Tree.root path with
    | (t, .error problem) =>
      { p with tree := t, skipped := p.skipped ++ [⟨parsed.origin, problem.message⟩] }
    | (t, .ok leaf) =>
      let shadowed := (p.byName.lookup parsed.unit.name).isSome
      { p with
        tree := t
        byName := if shadowed then p.byName else p.byName ++ [(parsed.unit.name, leaf)]
        placed := p.placed ++ [⟨leaf, parsed.unit.dependencies⟩]
        duplicates := if shadowed then p.duplicates + 1 else p.duplicates }

/-! ## Linking -/

structure Linking where
  tree : Tree
  links : Nat := 0
  missing : Nat := 0
  deriving DecidableEq, Repr

/-- Resolves one reference of a leaf. -/
def resolve (byName : List (String × NodeId)) (leaf : NodeId) (l : Linking) (name : String) :
    Linking :=
  match byName.lookup name with
  | some target => { l with tree := l.tree.connect leaf target, links := l.links + 1 }
  | none => { l with tree := l.tree.noteMissing leaf name, missing := l.missing + 1 }

def linkUnit (filter : UnitFilter) (byName : List (String × NodeId)) (l : Linking)
    (unit : PlacedUnit) : Linking :=
  (unit.dependencies.filter fun name => !filter.ignoresUnit name).foldl (resolve byName unit.leaf) l

/-! ## The scan -/

def parseNotices (skipped : List Skipped) : List Notice :=
  if skipped = [] then []
  else
    [.error ("⚠️  Warning: " ++ toString skipped.length ++
      " unit(s) could not be parsed and were skipped")]

/-- The project that the collected units make up, and what parsing them told. -/
def assemble (maxMajor : Nat) (filter : UnitFilter) (collected : Collected) :
    List Notice × Project :=
  let (parsed, unparsed) := parseAll maxMajor collected.units
  let p := parsed.foldl place {}
  let l := p.placed.foldl (linkUnit filter p.byName) { tree := p.tree }
  (parseNotices unparsed,
    { tree := l.tree
      found := collected.units.length
      parsed := p.placed.length
      duplicates := p.duplicates
      links := l.links
      missing := l.missing
      skippedUnits := unparsed ++ p.skipped
      skippedInputs := collected.skippedInputs
      inputs := collected.inputs })

def summary (project : Project) : Notice :=
  .report ("✅ Parsed " ++ toString project.parsed ++ " unit(s) with " ++ toString project.links ++
    " link(s); " ++ toString project.missing ++ " reference(s) unresolved")

/-- Reads all inputs and builds the project's tree. -/
def run (maxMajor : Nat) (source : Source) (request : Request) :
    List Notice × Except Failure Project :=
  match UnitFilter.make request.ignoredUnits request.ignoredSources [] with
  | .error fault => ([], .error (.pattern fault))
  | .ok filter =>
    match collect source filter request.paths with
    | (notices, .error failure) => (notices, .error failure)
    | (notices, .ok collected) =>
      let (more, project) := assemble maxMajor filter collected
      (notices ++ more ++ [summary project], .ok project)

end ClassCoupling.Scan
