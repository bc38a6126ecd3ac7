import ClassCoupling.Yaml.Glyph

/-!
# Scalars

The text of plain, quoted and block scalars. Single line breaks inside the first two are folded to a
blank, and so they are in folded block scalars.
-/

namespace ClassCoupling.Yaml

inductive Style where
  | plain
  | singleQuoted
  | doubleQuoted
  | literal
  | folded
  deriving DecidableEq, Repr

/-- The blanks and line breaks between two words of a scalar. -/
structure Gap where
  blanks : List Char := []
  /-- Whether there was a line break. -/
  broken : Bool := false
  /-- The first line break, unless it was escaped. -/
  first : List Char := []
  later : List Char := []
  deriving DecidableEq, Repr

namespace Gap

/-- Blanks after a line break do not count. -/
def add (gap : Gap) (g : Glyph) : Gap :=
  if g.isBreak then
    if gap.broken then { gap with later := gap.later ++ [g.char] }
    else { broken := true, first := [g.char] }
  else if gap.broken then gap
  else { gap with blanks := gap.blanks ++ [g.char] }

/-- What stands for a line break and those that follow it. -/
def fold (first later : List Char) : List Char :=
  if first = ['\n'] then if later = [] then [' '] else later else first ++ later

/-- Adds what a gap stands for to the text before it. -/
def close (gap : Gap) (text : String) : String :=
  (if gap.broken then fold gap.first gap.later else gap.blanks).foldl String.push text

end Gap

/-! ## Plain scalars -/

structure PlainScalar where
  text : String := ""
  gap : Gap := {}
  deriving DecidableEq, Repr

/-- Whether a plain scalar ends at a word. -/
def endsPlain (inFlow : Bool) (c : Char) (rest : Glyphs) : Bool :=
  (c = ':' && Glyphs.atSpace rest) || (inFlow && [',', '[', ']', '{', '}'].contains c)

/-- Reads on in a plain scalar whose further lines start at column `margin` or later. Between
brackets the margin does not count, and a colon must not touch the next bracket. -/
def plainFrom (inFlow : Bool) (margin : Int) :
    PlainScalar → Glyphs → Option (PlainScalar × Glyphs)
  | s, [] => some (s, [])
  | s, g :: rest =>
    if g.isSpace then
      if s.gap.broken && g.char = '\t' && g.column < margin then none
      else plainFrom inFlow margin { s with gap := s.gap.add g } rest
    else
      let resumed := s.gap ≠ {}
      let outside := s.gap.broken && !inFlow && g.column < margin
      if (resumed && (g.char = '#' || Glyphs.atDocumentMark (g :: rest))) || outside then
        some (s, g :: rest)
      else if inFlow && g.char = ':' &&
          Glyphs.startsWithAny [',', '?', '[', ']', '{', '}'] rest then none
      else if endsPlain inFlow g.char rest then some (s, g :: rest)
      else plainFrom inFlow margin { text := (s.gap.close s.text).push g.char } rest

/-! ## Quoted scalars -/

inductive Escape where
  | char (c : Char)
  /-- A character given by so many hexadecimal digits. -/
  | code (digits : Nat)
  deriving DecidableEq, Repr

def escape? (c : Char) : Option Escape :=
  [ ('0', .char '\x00'), ('a', .char '\x07'), ('b', .char '\x08'), ('t', .char '\t'),
    ('\t', .char '\t'), ('n', .char '\n'), ('v', .char '\x0b'), ('f', .char '\x0c'),
    ('r', .char '\r'), ('e', .char '\x1b'), (' ', .char ' '), ('"', .char '"'), ('/', .char '/'),
    ('\\', .char '\\'), ('N', .char '\u0085'), ('_', .char '\u00a0'), ('L', .char '\u2028'),
    ('P', .char '\u2029'), ('x', .code 2), ('u', .code 4), ('U', .code 8) ].lookup c

def hexValue? (c : Char) : Option Nat :=
  if c.isDigit then some (c.toNat - '0'.toNat)
  else if 'a' ≤ c ∧ c ≤ 'f' then some (c.toNat - 'a'.toNat + 10)
  else if 'A' ≤ c ∧ c ≤ 'F' then some (c.toNat - 'A'.toNat + 10)
  else none

def charOfCode? (code : Nat) : Option Char :=
  if h : code.isValidChar then some (Char.ofNatAux code h) else none

/-- Reads on in a single-quoted scalar, where two quotes stand for one. -/
def singleQuotedFrom (text : String) (gap : Gap) : Glyphs → Option (String × Glyphs)
  | [] => none
  | g :: rest =>
    if g.isSpace then singleQuotedFrom text (gap.add g) rest
    else if Glyphs.atDocumentMark (g :: rest) then none
    else
      let text := gap.close text
      if g.char = '\'' then
        match rest with
        | q :: more =>
          if q.char = '\'' then singleQuotedFrom (text.push '\'') {} more else some (text, rest)
        | [] => some (text, [])
      else singleQuotedFrom (text.push g.char) {} rest

/-- What a double-quoted scalar is in the middle of. -/
inductive QuoteState where
  | words (gap : Gap)
  | backslash
  /-- Digits of a code that are still to come, and the number so far. -/
  | code (digits value : Nat)
  deriving DecidableEq, Repr

/-- Reads on in a double-quoted scalar. An escaped line break is dropped with the blanks around. -/
def doubleQuotedFrom (text : String) : QuoteState → Glyphs → Option (String × Glyphs)
  | _, [] => none
  | .words gap, g :: rest =>
    if g.isSpace then doubleQuotedFrom text (.words (gap.add g)) rest
    else if Glyphs.atDocumentMark (g :: rest) then none
    else
      let text := gap.close text
      if g.char = '"' then some (text, rest)
      else if g.char = '\\' then doubleQuotedFrom text .backslash rest
      else doubleQuotedFrom (text.push g.char) (.words {}) rest
  | .backslash, g :: rest =>
    if g.isBreak then doubleQuotedFrom text (.words { broken := true }) rest
    else
      match escape? g.char with
      | some (.char c) => doubleQuotedFrom (text.push c) (.words {}) rest
      | some (.code digits) => doubleQuotedFrom text (.code digits 0) rest
      | none => none
  | .code digits value, g :: rest =>
    match hexValue? g.char with
    | none => none
    | some digit =>
      let value := 16 * value + digit
      if digits ≤ 1 then
        match charOfCode? value with
        | some c => doubleQuotedFrom (text.push c) (.words {}) rest
        | none => none
      else doubleQuotedFrom text (.code (digits - 1) value) rest

/-! ## Block scalars -/

/-- What happens to the line breaks at the end. -/
inductive Chomping where
  | strip
  | clip
  | keep
  deriving DecidableEq, Repr

structure BlockHeader where
  chomping : Chomping := .clip
  /-- The given indentation, relative to what surrounds the scalar. -/
  increment : Nat := 0
  deriving DecidableEq, Repr

def chomping? : Glyphs → Option (Chomping × Glyphs)
  | [] => none
  | g :: rest =>
    if g.char = '+' then some (.keep, rest)
    else if g.char = '-' then some (.strip, rest)
    else none

/-- A digit, which must not be zero. -/
def increment? : Glyphs → Option (Nat × Glyphs)
  | [] => some (0, [])
  | g :: rest =>
    if g.char = '0' then none
    else if g.char.isDigit then some (g.char.toNat - '0'.toNat, rest)
    else some (0, g :: rest)

/-- The header of a block scalar, which takes the rest of its line. -/
def blockHeader? (text : Glyphs) : Option (BlockHeader × Glyphs) := do
  let (header, text) ←
    match chomping? text with
    | some (chomping, text) => do
      let (increment, text) ← increment? text
      pure (BlockHeader.mk chomping increment, text)
    | none => do
      let (increment, text) ← increment? text
      match if increment = 0 then none else chomping? text with
      | some (chomping, text) => pure (BlockHeader.mk chomping increment, text)
      | none => pure (BlockHeader.mk .clip increment, text)
  return (header, ← Glyphs.finishLine? text)

structure BlockScalar where
  /-- The column at which lines start, once it is known. -/
  indent : Option Nat
  /-- The largest column met before it was known. -/
  deepest : Nat := 0
  text : String := ""
  /-- The line break after the last line. -/
  lineEnd : List Char := []
  /-- The line breaks of empty lines after that. -/
  empties : List Char := []
  /-- Whether the last line began with a blank. -/
  indented : Bool := false
  deriving DecidableEq, Repr

namespace BlockScalar

/-- Adds what separates the last line from the next one. -/
def joinLine (isFolded startsBlank : Bool) (s : BlockScalar) : BlockScalar :=
  let gap :=
    if isFolded && s.lineEnd = ['\n'] && !s.indented && !startsBlank then
      if s.empties = [] then [' '] else s.empties
    else s.lineEnd ++ s.empties
  { s with text := gap.foldl String.push s.text, lineEnd := [], empties := [], indented := startsBlank }

def finish (chomping : Chomping) (s : BlockScalar) : String :=
  let kept :=
    match chomping with
    | .strip => []
    | .clip => s.lineEnd
    | .keep => s.lineEnd ++ s.empties
  s.text ++ String.ofList kept

end BlockScalar

/-- Reads on in a block scalar, inside a line or in the indentation before one. Lines start at the
deepest column of the first lines, but at `margin` at least. -/
def blockFrom (isFolded : Bool) (margin : Nat) :
    Bool → BlockScalar → Glyphs → Option (BlockScalar × Glyphs)
  | _, s, [] => some (s, [])
  | true, s, g :: rest =>
    if g.isBreak then blockFrom isFolded margin false { s with lineEnd := [g.char] } rest
    else blockFrom isFolded margin true { s with text := s.text.push g.char } rest
  | false, s, g :: rest =>
    let before : Bool := s.indent.all fun indent => g.column < indent
    if before && g.char = ' ' then blockFrom isFolded margin false s rest
    else if before && g.char = '\t' then none
    else
      let deepest := max s.deepest g.column
      if g.isBreak then
        blockFrom isFolded margin false { s with deepest, empties := s.empties ++ [g.char] } rest
      else
        let indent := s.indent.getD (max deepest margin)
        let s := { s with indent := some indent, deepest }
        if g.column = indent then
          let s := s.joinLine isFolded g.isBlank
          blockFrom isFolded margin true { s with text := s.text.push g.char } rest
        else some (s, g :: rest)

/-- A block scalar inside a collection at column `parent`, after its indicator. -/
def blockScalar? (isFolded : Bool) (parent : Int) (text : Glyphs) :
    Option (String × Glyphs) := do
  let (header, text) ← blockHeader? text
  let indent :=
    if header.increment = 0 then none else some ((max parent 0).toNat + header.increment)
  let (s, rest) ← blockFrom isFolded (max 1 (parent + 1).toNat) false { indent } text
  return (s.finish header.chomping, rest)

end ClassCoupling.Yaml
