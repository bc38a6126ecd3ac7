/-!
# Sets of names in order

A set of names is a list without repetition, sorted by code points, which is also the order of the
UTF-8 bytes.
-/

namespace ClassCoupling.Text

abbrev NameSet := List String

namespace NameSet

def insert (name : String) : NameSet → NameSet
  | [] => [name]
  | x :: xs =>
    if name < x then name :: x :: xs
    else if name = x then x :: xs
    else x :: insert name xs

def ofList (names : List String) : NameSet :=
  names.foldl (fun set name => set.insert name) []

end NameSet

end ClassCoupling.Text
