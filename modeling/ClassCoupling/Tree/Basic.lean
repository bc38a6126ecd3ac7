/-!
# The containment tree

Units are the leaves of a tree of containers. Nodes are numbered in the order of their creation, the
unnamed root being node 0. A container lists its children by name; a leaf holds the leaves it uses,
the leaves that use it, and the names it uses that no unit has. The generation counts the changes a
snapshot can notice.
-/

namespace ClassCoupling

abbrev NodeId := Nat

/-- How a container is shown. -/
inductive ListMode where
  /-- Every child is shown on its own. -/
  | expanded
  /-- Leaves directly below are shown by the container, containers below on their own. -/
  | leafsCollapsed
  /-- Everything below is shown by the container. -/
  | collapsed
  deriving DecidableEq, Repr, Inhabited

def ListMode.describe : ListMode → String
  | expanded => "expanded"
  | leafsCollapsed => "leafs collapsed"
  | collapsed => "collapsed"

inductive NodeKind where
  | container
  | leaf
  deriving DecidableEq, Repr, Inhabited

def NodeKind.describe : NodeKind → String
  | container => "container"
  | leaf => "leaf"

inductive Content where
  | container (children : List (String × NodeId))
  | leaf (successors predecessors : List NodeId) (missing : List String)
  deriving DecidableEq, Repr

def Content.empty : NodeKind → Content
  | .container => .container []
  | .leaf => .leaf [] [] []

def Content.kind : Content → NodeKind
  | container _ => .container
  | leaf _ _ _ => .leaf

structure Node where
  name : String
  parent : Option NodeId
  mode : ListMode := .expanded
  content : Content
  deriving DecidableEq, Repr

structure Tree where
  nodes : Array Node
  generation : Nat
  deriving DecidableEq, Repr

namespace Tree

def root : NodeId := 0

/-- Only the root. -/
def empty : Tree where
  nodes := #[{ name := "", parent := none, content := .container [] }]
  generation := 0

instance : Inhabited Tree := ⟨empty⟩

def size (t : Tree) : Nat := t.nodes.size

def isEmpty (t : Tree) : Bool := t.size = 1

def node? (t : Tree) (id : NodeId) : Option Node := t.nodes[id]?

def contains (t : Tree) (id : NodeId) : Bool := id < t.size

def kind (t : Tree) (id : NodeId) : NodeKind :=
  match t.node? id with
  | some node => node.content.kind
  | none => .container

def isLeaf (t : Tree) (id : NodeId) : Bool := t.kind id = .leaf

def name (t : Tree) (id : NodeId) : String :=
  match t.node? id with
  | some node => node.name
  | none => ""

def parent? (t : Tree) (id : NodeId) : Option NodeId := (t.node? id).bind (·.parent)

def mode (t : Tree) (id : NodeId) : ListMode :=
  match t.node? id with
  | some node => node.mode
  | none => .expanded

/-- The children a node has registered, by name. -/
def registered (t : Tree) (id : NodeId) : List (String × NodeId) :=
  match t.node? id with
  | some ⟨_, _, _, .container children⟩ => children
  | _ => []

def child? (t : Tree) (id : NodeId) (name : String) : Option NodeId :=
  (t.registered id).lookup name

/-- The children of a node in the order of their creation. A child is created after its container,
which lets every walk down the tree end. -/
def children (t : Tree) (id : NodeId) : List NodeId :=
  ((t.registered id).map (·.2)).filter fun child => id < child ∧ child < t.size

theorem lt_of_mem_children {t : Tree} {id child : Nat} (h : child ∈ t.children id) :
    id < child ∧ child < t.size := by
  simpa using (List.mem_filter.mp h).2

/-- The leaves a leaf uses. -/
def uses (t : Tree) (id : NodeId) : List NodeId :=
  match t.node? id with
  | some ⟨_, _, _, .leaf successors _ _⟩ => successors
  | _ => []

/-- The leaves that use a leaf. -/
def usedBy (t : Tree) (id : NodeId) : List NodeId :=
  match t.node? id with
  | some ⟨_, _, _, .leaf _ predecessors _⟩ => predecessors
  | _ => []

/-- The names a leaf uses that no unit has, sorted. -/
def missing (t : Tree) (id : NodeId) : List String :=
  match t.node? id with
  | some ⟨_, _, _, .leaf _ _ missing⟩ => missing
  | _ => []

/-- The containers a node lies in, nearest first, the root last. -/
def ancestors (t : Tree) (id : NodeId) : List NodeId :=
  match t.parent? id with
  | some p => if p < id then p :: t.ancestors p else []
  | none => []
termination_by id

def isAncestor (t : Tree) (ancestor id : NodeId) : Bool :=
  (t.ancestors id).contains ancestor

/-- Shows a node another way; false if it was shown so already. -/
def setMode (t : Tree) (id : NodeId) (mode : ListMode) : Tree × Bool :=
  match t.node? id with
  | some node =>
    if node.mode = mode then (t, false)
    else
      ({ nodes := t.nodes.set! id { node with mode }, generation := t.generation + 1 }, true)
  | none => (t, false)

end Tree

end ClassCoupling
