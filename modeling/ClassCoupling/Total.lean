/-!
# Totals
-/

namespace ClassCoupling

/-- The sum of a list of numbers. -/
def total (ns : List Nat) : Nat := ns.foldr (· + ·) 0

@[simp] theorem total_nil : total [] = 0 := rfl

@[simp] theorem total_cons (n : Nat) (ns : List Nat) : total (n :: ns) = n + total ns := rfl

@[simp] theorem total_append (ns ms : List Nat) : total (ns ++ ms) = total ns + total ms := by
  induction ns with
  | nil => simp
  | cons n ns ih => simp [ih, Nat.add_assoc]

end ClassCoupling
