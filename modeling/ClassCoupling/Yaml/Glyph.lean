/-!
# Characters in place

The text of a stream with the line and column of each character. A line break is one character,
however it is written; all of them but the two separators of Unicode are written as a newline.
-/

namespace ClassCoupling.Yaml

structure Glyph where
  char : Char
  line : Nat
  column : Nat
  /-- The number of characters before it. -/
  index : Nat
  deriving DecidableEq, Repr

def glyphsFrom (line column index : Nat) : List Char → List Glyph
  | [] => []
  | '\r' :: '\n' :: rest => ⟨'\n', line, column, index⟩ :: glyphsFrom (line + 1) 0 (index + 2) rest
  | c :: rest =>
    if c = '\r' ∨ c = '\n' ∨ c = '\u0085' then
      ⟨'\n', line, column, index⟩ :: glyphsFrom (line + 1) 0 (index + 1) rest
    else if c = '\u2028' ∨ c = '\u2029' then
      ⟨c, line, column, index⟩ :: glyphsFrom (line + 1) 0 (index + 1) rest
    else ⟨c, line, column, index⟩ :: glyphsFrom line (column + 1) (index + 1) rest

/-- The characters a stream may hold. -/
def isAllowed (c : Char) : Bool :=
  c = '\t' || c = '\n' || c = '\r' || (' ' ≤ c && c ≤ '~') || c = '\u0085' ||
    ('\u00a0' ≤ c && c ≤ '\ufffd') || 0x10000 ≤ c.toNat

/-- The glyphs of a text, if all its characters are allowed. -/
def glyphs? (text : String) : Option (List Glyph) :=
  if text.toList.all isAllowed then some (glyphsFrom 0 0 0 text.toList) else none

namespace Glyph

def isBlank (g : Glyph) : Bool := g.char = ' ' || g.char = '\t'

def isBreak (g : Glyph) : Bool := g.char = '\n' || g.char = '\u2028' || g.char = '\u2029'

def isSpace (g : Glyph) : Bool := g.isBlank || g.isBreak

/-- Letters, digits, dashes and underscores. -/
def isWord (g : Glyph) : Bool :=
  g.char.isAlphanum || g.char = '-' || g.char = '_'

end Glyph

abbrev Glyphs := List Glyph

namespace Glyphs

def chars (text : Glyphs) : List Char := text.map (·.char)

def string (text : Glyphs) : String := String.ofList text.chars

/-- At a blank, a line break or the end. -/
def atSpace : Glyphs → Bool
  | [] => true
  | g :: _ => g.isSpace

def startsWith (c : Char) : Glyphs → Bool
  | [] => false
  | g :: _ => g.char = c

def startsWithAny (cs : List Char) : Glyphs → Bool
  | [] => false
  | g :: _ => cs.contains g.char

/-- At a `---` or `...` of its own at the beginning of a line. -/
def atDocumentMark : Glyphs → Bool
  | a :: b :: c :: rest =>
    a.column = 0 && a.char = b.char && b.char = c.char && (a.char = '-' || a.char = '.') &&
      atSpace rest
  | _ => false

def skipBlanks (text : Glyphs) : Glyphs := text.dropWhile Glyph.isBlank

/-- Leaves the rest of a line that holds nothing but blanks and a comment. -/
def finishLine? (text : Glyphs) : Option Glyphs :=
  let text := skipBlanks text
  let text := if startsWith '#' text then text.dropWhile (fun g => !g.isBreak) else text
  match text with
  | [] => some []
  | g :: rest => if g.isBreak then some rest else none

end Glyphs

end ClassCoupling.Yaml
