import ClassCoupling.Problem
import ClassCoupling.Text.NameSet
import ClassCoupling.Tree.Names

/-!
# Growing the tree

Nodes are created along a path, links between leaves one by one. Every node and every link that was
not there before raises the generation.
-/

namespace ClassCoupling.Tree

/-- Why a node cannot be created. -/
inductive Obstacle where
  | emptySegment
  | insideLeaf (name : String)
  | otherKind (name : String) (found : NodeKind)
  deriving DecidableEq, Repr

def Obstacle.describe : Obstacle → String
  | emptySegment => "empty name segment"
  | insideLeaf name => "'" ++ name ++ "' is a leaf and cannot hold children"
  | otherKind name found => "'" ++ name ++ "' already exists as a " ++ found.describe

/-- Cuts a path into the containers it passes and the name it ends in. A dot in front of everything
that is left belongs to that last name, which is empty after a dot at the end. -/
def route (path : List Char) : List (List Char) × List Char :=
  match path with
  | [] => ([], [])
  | c :: cs =>
    if c = '.' then ([], c :: cs)
    else
      match _cut : Text.cutFirst '.' cs with
      | some (segment, rest) =>
        let (more, last) := route rest
        ((c :: segment) :: more, last)
      | none => ([], c :: cs)
termination_by path.length
decreasing_by
  have := congrArg List.length (Text.eq_append_of_cutFirst _cut)
  simp only [List.length_append, List.length_cons] at this ⊢
  omega

/-- The child of that name and kind, created if there is none of that name. -/
def place (t : Tree) (parent : NodeId) (name : String) (kind : NodeKind) :
    Except Obstacle (Tree × NodeId) :=
  match t.node? parent with
  | some ⟨parentName, above, mode, .container children⟩ =>
    match children.lookup name with
    | some id =>
      if t.kind id = kind then .ok (t, id) else .error (.otherKind (t.fullName id) (t.kind id))
    | none =>
      let id := t.size
      let grown := ⟨parentName, above, mode, .container (children ++ [(name, id)])⟩
      let created := { name, parent := some parent, content := .empty kind }
      .ok ({ nodes := (t.nodes.set! parent grown).push created, generation := t.generation + 1 }, id)
  | _ => .error (.insideLeaf (t.fullName parent))

/-- Creates the containers on the way, then the node itself. What was created before an obstacle
stays. -/
def createAlong (kind : NodeKind) :
    Tree → NodeId → List String → String → Tree × Except Obstacle NodeId
  | t, parent, [], last =>
    if last = "" then (t, .error .emptySegment)
    else
      match t.place parent last kind with
      | .ok (t, id) => (t, .ok id)
      | .error obstacle => (t, .error obstacle)
  | t, parent, segment :: more, last =>
    match t.place parent segment .container with
    | .ok (t, id) => createAlong kind t id more last
    | .error obstacle => (t, .error obstacle)

/-- Creates or reuses the node at `path` below `parent`. -/
def create (t : Tree) (kind : NodeKind) (parent : NodeId) (path : String) :
    Tree × Except Problem NodeId :=
  let (via, last) := route path.toList
  let (t, result) := createAlong kind t parent (via.map String.ofList) (String.ofList last)
  (t, result.mapError fun obstacle => .structural path obstacle.describe)

def createContainer (t : Tree) (parent : NodeId) (path : String) : Tree × Except Problem NodeId :=
  t.create .container parent path

def createLeaf (t : Tree) (parent : NodeId) (path : String) : Tree × Except Problem NodeId :=
  t.create .leaf parent path

def addUse (target : NodeId) (node : Node) : Node :=
  match node.content with
  | .leaf successors predecessors missing =>
    { node with content := .leaf (successors ++ [target]) predecessors missing }
  | .container _ => node

def addUser (source : NodeId) (node : Node) : Node :=
  match node.content with
  | .leaf successors predecessors missing =>
    { node with content := .leaf successors (predecessors ++ [source]) missing }
  | .container _ => node

def addMissing (name : String) (node : Node) : Node :=
  match node.content with
  | .leaf successors predecessors missing =>
    { node with content := .leaf successors predecessors (Text.NameSet.insert name missing) }
  | .container _ => node

/-- Records that the leaf `source` uses the leaf `target`, once. -/
def connect (t : Tree) (source target : NodeId) : Tree :=
  if target ∈ t.uses source then t
  else
    { nodes := (t.nodes.modify source (addUse target)).modify target (addUser source)
      generation := t.generation + 1 }

/-- Records a name that the leaf uses and no unit has. -/
def noteMissing (t : Tree) (leaf : NodeId) (name : String) : Tree :=
  { t with nodes := t.nodes.modify leaf (addMissing name) }

/-- Connects two nodes if both are leaves. -/
def link (t : Tree) (source target : NodeId) : Except Problem Tree :=
  match [source, target].find? fun id => !t.isLeaf id with
  | some id => .error (.structural (t.fullName id) "dependency links can only join leaves")
  | none => .ok (t.connect source target)

/-- Notes a missing name at a node if it is a leaf. -/
def recordMissing (t : Tree) (leaf : NodeId) (name : String) : Except Problem Tree :=
  if t.isLeaf leaf then .ok (t.noteMissing leaf name)
  else .error (.structural (t.fullName leaf) "only leaves record missing dependencies")

end ClassCoupling.Tree
