import ClassCoupling.Digraph.Basic

/-!
# Traversals

Both traversals list every vertex that can be reached from the start, the start first: one level
after level, the other going down before going on. Neither uses recursion on the graph; they keep
the queue or the stack of what is left to look at.
-/

namespace ClassCoupling.Digraph

variable {n : Nat}

/-- Lists the queue in order, each vertex putting its unseen successors at the end of the queue. -/
def breadthFirstFrom (g : Digraph n) (seen : List (Fin n)) : List (Fin n) → List (Fin n)
  | [] => []
  | v :: queue =>
    let fresh := ((g.successors v).filter fun u => !seen.contains u).eraseDups
    v :: g.breadthFirstFrom (seen ++ fresh) (queue ++ fresh)
termination_by queue => (unseen seen, queue.length)
decreasing_by
  cases h : ((g.successors v).filter fun u => !seen.contains u).eraseDups with
  | nil => simpa using Prod.Lex.right _ (Nat.lt_succ_self queue.length)
  | cons u us =>
    have mem : u ∈ (g.successors v).filter fun u => !seen.contains u := by
      rw [← List.mem_eraseDups, h]
      exact List.mem_cons_self
    refine Prod.Lex.left _ _ (unseen_lt (v := u) ?_ ?_ ?_)
    · exact fun w hw => List.mem_append_left _ hw
    · simpa using (List.mem_filter.mp mem).2
    · simp

def breadthFirst (g : Digraph n) (start : Fin n) : List (Fin n) :=
  g.breadthFirstFrom [start] [start]

/-- Adds to `seen` what is reached from the successor lists on the stack, each list being what its
vertex has still to look at. -/
def depthFirstFrom (g : Digraph n) (seen : List (Fin n)) : List (List (Fin n)) → List (Fin n)
  | [] => seen
  | [] :: stack => g.depthFirstFrom seen stack
  | (v :: more) :: stack =>
    if seen.contains v then g.depthFirstFrom seen (more :: stack)
    else g.depthFirstFrom (seen ++ [v]) (g.successors v :: more :: stack)
termination_by stack => (unseen seen, total (stack.map (·.length + 1)))
decreasing_by
  · exact Prod.Lex.right _ (by simp)
  · exact Prod.Lex.right _ (by simp)
  · have new : v ∉ seen := by simp_all
    exact Prod.Lex.left _ _ (unseen_lt (fun _ hw => List.mem_append_left _ hw) new (by simp))

def depthFirst (g : Digraph n) (start : Fin n) : List (Fin n) :=
  g.depthFirstFrom [start] [g.successors start]

end ClassCoupling.Digraph
