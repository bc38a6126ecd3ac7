/-!
# Cutting text at a character

Names and paths are cut at a separator: at its first place, at its last place, or everywhere.
-/

namespace ClassCoupling.Text

universe u
variable {α : Type u} [DecidableEq α]

/-- The parts before and after the first `a`. -/
def cutFirst (a : α) : List α → Option (List α × List α)
  | [] => none
  | x :: xs => if x = a then some ([], xs) else (cutFirst a xs).map fun p => (x :: p.1, p.2)

theorem eq_append_of_cutFirst {a : α} {xs l r : List α} (h : cutFirst a xs = some (l, r)) :
    xs = l ++ a :: r := by
  induction xs generalizing l with
  | nil => simp [cutFirst] at h
  | cons x xs ih =>
    by_cases hx : x = a
    · simp only [cutFirst, hx, if_true, Option.some.injEq, Prod.mk.injEq] at h
      obtain ⟨rfl, rfl⟩ := h
      simp [hx]
    · simp only [cutFirst, hx, if_false, Option.map_eq_some_iff, Prod.mk.injEq] at h
      obtain ⟨⟨l, _⟩, cut, rfl, rfl⟩ := h
      simpa using ih cut

/-- The parts before and after the last `a`. -/
def cutLast (a : α) : List α → Option (List α × List α)
  | [] => none
  | x :: xs =>
    match cutLast a xs with
    | some (l, r) => some (x :: l, r)
    | none => if x = a then some ([], xs) else none

/-- The parts of `s` between its characters `c`; there is always at least one. -/
def split (c : Char) (s : String) : List String :=
  (s.toList.splitOn c).map String.ofList

/-- The text before and after the first `c`. -/
def atFirst? (c : Char) (s : String) : Option (String × String) :=
  (cutFirst c s.toList).map fun p => (String.ofList p.1, String.ofList p.2)

/-- The text before and after the last `c`. -/
def atLast? (c : Char) (s : String) : Option (String × String) :=
  (cutLast c s.toList).map fun p => (String.ofList p.1, String.ofList p.2)

def startsWith (head s : String) : Bool := head.toList.isPrefixOf s.toList

def endsWith (tail s : String) : Bool := tail.toList.isSuffixOf s.toList

/-- Every `old` becomes `new`. -/
def replace (old new : Char) (s : String) : String :=
  String.ofList (s.toList.map fun c => if c = old then new else c)

/-- The parts with `separator` between neighbours. -/
def join (separator : String) (parts : List String) : String :=
  separator.intercalate parts

end ClassCoupling.Text
