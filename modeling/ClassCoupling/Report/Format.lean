import ClassCoupling.Text.Keyword

/-!
# Output formats
-/

namespace ClassCoupling

inductive OutputFormat where
  | text
  | json
  deriving DecidableEq, Repr, Inhabited

namespace OutputFormat

def describe : OutputFormat → String
  | text => "text"
  | json => "json"

def ofString? (s : String) : Option OutputFormat :=
  if Text.isKeyword "text" s || Text.isKeyword "txt" s then some text
  else if Text.isKeyword "json" s then some json
  else none

end OutputFormat

end ClassCoupling
