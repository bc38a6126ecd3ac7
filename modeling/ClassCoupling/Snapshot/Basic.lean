import ClassCoupling.Tree.Shown

/-!
# Snapshots

A snapshot is a small graph over nodes of a tree, taken at one generation of it. Its entries are
numbered from zero in storage order; taking an entry out leaves the numbers behind until the
snapshot is renumbered. Arcs are kept by node, so they survive both.

Where the entry of a node stands is noted beside the entries, and every edit has to keep the notes
in step: they decide what the snapshot contains and where its arcs lead.
-/

namespace ClassCoupling

structure Entry where
  node : NodeId
  index : Nat
  units : Nat
  successors : List NodeId
  predecessors : List NodeId
  deriving DecidableEq, Repr

/-- Numbers of nodes, one for each node at most. -/
abbrev Positions := List (NodeId × Nat)

namespace Positions

def remove (node : NodeId) (positions : Positions) : Positions :=
  positions.filter fun position => position.1 ≠ node

/-- Notes a number, in place of the one the node had. -/
def note (node : NodeId) (number : Nat) (positions : Positions) : Positions :=
  positions.remove node ++ [(node, number)]

end Positions

structure Snapshot where
  entries : List Entry
  positions : Positions
  generation : Nat
  numbered : Bool
  deriving DecidableEq, Repr

namespace Snapshot

/-- A use that only a numbered snapshot, or one with more entries, allows. -/
inductive Misuse where
  | outOfRange
  | notNumbered
  deriving DecidableEq, Repr

def empty : Snapshot := ⟨[], [], 0, true⟩

instance : Inhabited Snapshot := ⟨empty⟩

abbrev size (s : Snapshot) : Nat := s.entries.length

def isEmpty (s : Snapshot) : Bool := s.entries.isEmpty

def nodes (s : Snapshot) : List NodeId := s.entries.map (·.node)

def contains (s : Snapshot) (node : NodeId) : Bool := (s.positions.lookup node).isSome

def isStale (s : Snapshot) (t : Tree) : Bool := s.generation ≠ t.generation

def arcCount (s : Snapshot) : Nat := total (s.entries.map (·.successors.length))

/-- Every arc as a pair of nodes, grouped by the node it leaves. -/
def nodeArcs (s : Snapshot) : List (NodeId × NodeId) :=
  s.entries.flatMap fun entry => entry.successors.map fun target => (entry.node, target)

def entryAt (s : Snapshot) (index : Nat) : Except Misuse Entry :=
  match s.entries[index]? with
  | some entry => .ok entry
  | none => .error .outOfRange

/-! ## Arcs -/

/-- Changes both ends of the arc between two places, by what happens to the lists that hold the
other end. -/
def updateArc (change : List NodeId → NodeId → List NodeId) (i j : Nat) (source target : NodeId)
    (s : Snapshot) : Snapshot :=
  let left := s.entries.modify i fun entry =>
    { entry with successors := change entry.successors target }
  { s with
    entries := left.modify j fun entry =>
      { entry with predecessors := change entry.predecessors source } }

def hasArc (s : Snapshot) (source target : Nat) : Except Misuse Bool := do
  let source ← s.entryAt source
  let target ← s.entryAt target
  return source.successors.contains target.node

/-- Lists a node that was not listed. -/
def adjoin (nodes : List NodeId) (node : NodeId) : List NodeId :=
  if node ∈ nodes then nodes else nodes ++ [node]

/-- Adds an arc between two places; false if it was there. -/
def addArc (s : Snapshot) (i j : Nat) : Except Misuse (Snapshot × Bool) := do
  let source ← s.entryAt i
  let target ← s.entryAt j
  if target.node ∈ source.successors then return (s, false)
  return (s.updateArc adjoin i j source.node target.node, true)

/-- Removes the arc between two places; false if there was none. -/
def removeArc (s : Snapshot) (i j : Nat) : Except Misuse (Snapshot × Bool) := do
  let source ← s.entryAt i
  let target ← s.entryAt j
  if target.node ∉ source.successors then return (s, false)
  return (s.updateArc List.erase i j source.node target.node, true)

/-- What an edit makes of a snapshot that allows it. -/
def edited (s : Snapshot) : Except Misuse (Snapshot × Bool) → Snapshot
  | .ok (changed, _) => changed
  | .error _ => s

/-- Adds the arc from a place to a node that has an entry. -/
def linkTo (i : Nat) (s : Snapshot) (target : NodeId) : Snapshot :=
  match s.positions.lookup target with
  | some j => s.edited (s.addArc i j)
  | none => s

/-- Removes the arcs between the given places, one after the other. -/
def unlinkAll (arcs : List (Nat × Nat)) (s : Snapshot) : Snapshot :=
  arcs.foldl (fun s arc => s.edited (s.removeArc arc.1 arc.2)) s

/-- Every arc as a pair of noted numbers, grouped by the entry it leaves. -/
def placedArcs (s : Snapshot) : List (Nat × Nat) :=
  s.entries.zipIdx.flatMap fun placed =>
    (placed.1.successors.filterMap fun target => s.positions.lookup target).map fun j =>
      (placed.2, j)

/-! ## Nodes -/

/-- Adds an entry for a node that has none. -/
def push (node : NodeId) (units : Nat) (s : Snapshot) : Snapshot :=
  if s.contains node then s
  else
    { s with
      positions := s.positions.note node s.size
      entries := s.entries ++ [⟨node, s.size, units, [], []⟩] }

/-- Adds entries for nodes and unit counts, one after the other. -/
def pushAll (nodes : List (NodeId × Nat)) (s : Snapshot) : Snapshot :=
  nodes.foldl (fun s node => s.push node.1 node.2) s

/-- Adds the arcs that an entry of another snapshot records, if both ends have an entry here. -/
def copyEntry (s : Snapshot) (entry : Entry) : Snapshot :=
  match s.positions.lookup entry.node with
  | some i => entry.successors.foldl (linkTo i) s
  | none => s

def copyArcs (source s : Snapshot) : Snapshot := source.entries.foldl copyEntry s

/-- Adds the arcs that the tree shows from the node at a place. -/
def linkShown (t : Tree) (s : Snapshot) (i : Nat) : Snapshot :=
  match s.entries[i]? with
  | some entry => (t.successors entry.node).foldl (linkTo i) s
  | none => s

/-- No node, as of a generation. -/
def blank (generation : Nat) : Snapshot := { empty with generation }

def unitCounts (entries : List Entry) : List (NodeId × Nat) :=
  entries.map fun entry => (entry.node, entry.units)

/-- The given nodes as the tree shows them now; a repeated node is taken once. -/
def ofNodes (t : Tree) (nodes : List NodeId) : Snapshot :=
  let s := (blank t.generation).pushAll (nodes.map fun node => (node, t.unitCount node))
  (List.range s.size).foldl (linkShown t) s

/-- Every visible node that stands for a unit. -/
def ofTree (t : Tree) : Snapshot :=
  ofNodes t ((t.walkVisible Tree.root).filter t.hasOwnContent)

/-- The given entries and the arcs among them. -/
def restrict (s : Snapshot) (entries : List Entry) : Snapshot :=
  copyArcs s ((blank s.generation).pushAll (unitCounts entries))

/-- The entries at the given places, in that order, and the arcs among them. -/
def induced (s : Snapshot) (places : List Nat) : Except Misuse Snapshot :=
  (places.mapM s.entryAt).map s.restrict

/-- All nodes and arcs of several snapshots, as of the latest generation among them. -/
def union (snapshots : List Snapshot) : Snapshot :=
  let joined := snapshots.foldl (fun joined s => joined.pushAll (unitCounts s.entries))
    (blank ((snapshots.map (·.generation)).foldl max 0))
  snapshots.foldl (fun joined s => copyArcs s joined) joined

/-- Takes out the entry at a place and its arcs, leaving the numbers of the others as they are. -/
def removeNode (s : Snapshot) (place : Nat) : Except Misuse (Snapshot × NodeId) := do
  let removed ← s.entryAt place
  let entries := (s.entries.eraseIdx place).map fun entry => { entry with
    successors := entry.successors.erase removed.node
    predecessors := entry.predecessors.erase removed.node }
  return ({ s with entries, positions := s.positions.remove removed.node, numbered := false },
    removed.node)

def renumber (s : Snapshot) : Snapshot :=
  let entries := s.entries.mapIdx fun index entry => { entry with index }
  { s with
    entries
    positions := entries.foldl (fun positions entry => positions.note entry.node entry.index) []
    numbered := true }

/-- The arcs there are, of those there could be between different nodes. -/
def density (s : Snapshot) : Float :=
  if s.size < 2 then 0.0 else s.arcCount.toFloat / (s.size * (s.size - 1)).toFloat

end Snapshot

end ClassCoupling
