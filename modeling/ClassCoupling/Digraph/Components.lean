import ClassCoupling.Digraph.Basic

/-!
# Strongly connected components

One depth-first search finds all components. A vertex is numbered when it is entered and stays on
the stack until its component is complete; the low link of an open vertex is the least number on the
stack known to be reachable from it. A vertex left with its low link equal to its number closes a
component: everything above it on the stack, and itself.

The search is a machine with an explicit list of open vertices. Components come in the order in
which they are closed, their members in the order in which they leave the stack.
-/

namespace ClassCoupling.Digraph

variable {n : Nat}

/-- An open vertex and the successors it has still to look at. -/
structure Frame (n : Nat) where
  vertex : Fin n
  number : Nat
  low : Nat
  pending : List (Fin n)
  deriving DecidableEq, Repr

structure Search (n : Nat) where
  /-- Every vertex entered so far, the latest first. -/
  seen : List (Fin n) := []
  /-- The vertices whose component is not complete, with their numbers, the latest first. -/
  stack : List (Fin n × Nat) := []
  frames : List (Frame n) := []
  components : List (List (Fin n)) := []
  deriving DecidableEq, Repr

namespace Search

def enter (g : Digraph n) (v : Fin n) (s : Search n) : Search n :=
  let number := s.seen.length
  { s with
    seen := v :: s.seen
    stack := (v, number) :: s.stack
    frames := ⟨v, number, number, g.successors v⟩ :: s.frames }

/-- Lowers the low link of the innermost open vertex. -/
def lower (low : Nat) : List (Frame n) → List (Frame n)
  | [] => []
  | frame :: frames => { frame with low := min frame.low low } :: frames

/-- Takes the component of `v` off the stack. -/
def close (v : Fin n) (s : Search n) : Search n :=
  let above := s.stack.takeWhile fun entry => entry.1 ≠ v
  { s with
    stack := (s.stack.drop above.length).tail
    components := s.components ++ [above.map (·.1) ++ [v]] }

/-- Looks at the next successor of the innermost open vertex, or leaves that vertex. -/
def step (g : Digraph n) (s : Search n) : Search n :=
  match s.frames with
  | [] => s
  | ⟨v, number, low, u :: pending⟩ :: frames =>
    if !s.seen.contains u then enter g u { s with frames := ⟨v, number, low, pending⟩ :: frames }
    else
      match s.stack.lookup u with
      | some seenAt => { s with frames := ⟨v, number, min low seenAt, pending⟩ :: frames }
      | none => { s with frames := ⟨v, number, low, pending⟩ :: frames }
  | ⟨v, number, low, []⟩ :: frames =>
    let left := { s with frames := lower low frames }
    if low = number then left.close v else left

/-- The looks that the open vertices have still to take. -/
def work (s : Search n) : Nat := total (s.frames.map (·.pending.length + 1))

theorem step_decreases (g : Digraph n) (s : Search n) (busy : s.frames ≠ []) :
    Prod.Lex (· < ·) (· < ·) (unseen (s.step g).seen, (s.step g).work) (unseen s.seen, s.work) := by
  obtain ⟨seen, stack, frames, components⟩ := s
  match frames with
  | [] => exact absurd rfl busy
  | ⟨v, number, low, u :: pending⟩ :: frames =>
    simp only [step]
    split
    · next new =>
      exact .left _ _ (unseen_lt (fun w hw => List.mem_cons_of_mem _ hw) (by simpa using new)
        List.mem_cons_self)
    · split <;> exact .right _ (by simp [work])
  | ⟨v, number, low, []⟩ :: frames =>
    have same : (lower low frames).map (·.pending.length + 1) =
        frames.map (·.pending.length + 1) := by
      cases frames <;> rfl
    simp only [step]
    split <;> exact .right _ (by simp [close, work, same])

/-- Runs the search until no vertex is open. -/
def run (g : Digraph n) (s : Search n) : Search n :=
  if s.frames = [] then s else run g (s.step g)
termination_by (unseen s.seen, s.work)
decreasing_by exact step_decreases g s ‹_›

/-- Searches from `v` unless it was seen before. -/
def visit (g : Digraph n) (s : Search n) (v : Fin n) : Search n :=
  if s.seen.contains v then s else run g (enter g v s)

end Search

/-- The strongly connected components, each after every other component it leads to. -/
def components (g : Digraph n) : List (List (Fin n)) :=
  ((List.finRange n).foldl (Search.visit g) {}).components

/-- Marks the members of a component with its position. -/
def mark (table : Vector Nat n) (component : List (Fin n)) (position : Nat) : Vector Nat n :=
  component.foldl (fun table v => table.set v.val position v.isLt) table

/-- The position of the component of each vertex, filled in one component after the other. -/
def componentTable (components : List (List (Fin n))) : Vector Nat n :=
  components.zipIdx.foldl (fun table entry => mark table entry.1 entry.2) (.replicate n 0)

/-- A component is a cycle if it has more than one member, or one that is its own successor. -/
def isCycle (g : Digraph n) : List (Fin n) → Bool
  | [v] => (g.successors v).contains v
  | members => members.length > 1

end ClassCoupling.Digraph
