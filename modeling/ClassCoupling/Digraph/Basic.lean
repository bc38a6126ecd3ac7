import ClassCoupling.Total

/-!
# Directed graphs

A graph on the vertices below `n`, each with the list of its successors in order. Searches over it
keep the list of vertices seen so far; they end because the number of unseen vertices falls.
-/

namespace ClassCoupling

structure Digraph (n : Nat) where
  table : Vector (List (Fin n)) n
  deriving DecidableEq, Repr

namespace Digraph

variable {n : Nat}

def successors (g : Digraph n) (v : Fin n) : List (Fin n) := g.table[v]

def ofFn (successors : Fin n → List (Fin n)) : Digraph n := ⟨Vector.ofFn successors⟩

@[simp]
theorem successors_ofFn (f : Fin n → List (Fin n)) (v : Fin n) : (ofFn f).successors v = f v := by
  simp [successors, ofFn]

/-- The number of vertices that are not in the list. -/
def unseen (seen : List (Fin n)) : Nat :=
  (List.finRange n).countP fun v => v ∉ seen

theorem unseen_lt {seen more : List (Fin n)} {v : Fin n} (sub : ∀ u ∈ seen, u ∈ more)
    (new : v ∉ seen) (mem : v ∈ more) : unseen more < unseen seen := by
  have fewer : ∀ vs : List (Fin n),
      vs.countP (fun u => u ∉ more) + (if v ∈ vs then 1 else 0) ≤
        vs.countP (fun u => u ∉ seen) := by
    intro vs
    induction vs with
    | nil => simp
    | cons u vs ih =>
      have := sub u
      simp only [List.countP_cons, List.mem_cons, decide_eq_true_eq]
      grind
  have := fewer (List.finRange n)
  simp only [List.mem_finRange, if_true] at this
  exact this

end Digraph

end ClassCoupling
