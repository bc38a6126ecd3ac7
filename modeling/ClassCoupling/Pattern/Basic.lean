/-!
# Wildcard patterns

In a pattern `*` stands for any run of characters, everything else for itself. A pattern is compiled
once into the form that fits it; all forms decide the same question.
-/

namespace ClassCoupling

namespace Pattern

/-- The rest of a text after the first place where `part` occurs in it. -/
def after? (part : List Char) : List Char → Option (List Char)
  | [] => if part = [] then some [] else none
  | c :: text =>
    if part.isPrefixOf (c :: text) then some ((c :: text).drop part.length) else after? part text

inductive Matcher where
  | exactly (text : List Char)
  | startingWith (head : List Char)
  | endingWith (tail : List Char)
  | containing (middle : List Char)
  /-- Fixed ends, and between them the other parts in order. -/
  | segments (head : List Char) (middle : List (List Char)) (tail : List Char)
  deriving DecidableEq, Repr

def Matcher.ofParts : List (List Char) → Matcher
  | [] => .exactly []
  | [text] => .exactly text
  | [head, []] => .startingWith head
  | [[], tail] => .endingWith tail
  | [[], middle, []] => .containing middle
  | head :: more => .segments head (more.dropLast.filter (· ≠ [])) (more.getLastD [])

def Matcher.compile (pattern : List Char) : Matcher :=
  .ofParts (pattern.splitOn '*')

def Matcher.accepts : Matcher → List Char → Bool
  | exactly text, t => t == text
  | startingWith head, t => head.isPrefixOf t
  | endingWith tail, t => tail.isSuffixOf t
  | containing middle, t => (after? middle t).isSome
  | segments head middle tail, t =>
    head.length + tail.length ≤ t.length && head.isPrefixOf t && tail.isSuffixOf t &&
      (middle.foldlM (fun rest part => after? part rest)
        ((t.drop head.length).take (t.length - head.length - tail.length))).isSome

end Pattern

/-- A pattern, compiled, and whether it ever was the one that matched. -/
structure Pattern where
  text : String
  matcher : Pattern.Matcher
  matched : Bool := false
  deriving DecidableEq, Repr

namespace Pattern

def compile (text : String) : Pattern :=
  { text, matcher := .compile text.toList }

def accepts (p : Pattern) (name : String) : Bool :=
  p.matcher.accepts name.toList

/-- Whether some pattern accepts `name`; the first that does remembers it. -/
def query (name : String) : List Pattern → Bool × List Pattern
  | [] => (false, [])
  | p :: ps =>
    if p.accepts name then (true, { p with matched := true } :: ps)
    else
      let (found, ps) := query name ps
      (found, p :: ps)

end Pattern

end ClassCoupling
