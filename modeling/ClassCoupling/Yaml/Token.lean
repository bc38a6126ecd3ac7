import ClassCoupling.Yaml.Property

/-!
# Tokens

A stream as a list of tokens. Indentation becomes start and end tokens of block collections. What may
turn out to be a key is remembered where it begins: when its colon is met, the key token is put in
front of it, and the start of a mapping if it opens one.
-/

namespace ClassCoupling.Yaml

inductive Token where
  | directive (directive : Directive)
  | documentStart
  | documentEnd
  | blockSequenceStart
  | blockMappingStart
  | blockEnd
  | flowSequenceStart
  | flowSequenceEnd
  | flowMappingStart
  | flowMappingEnd
  | blockEntry
  | flowEntry
  | key
  | value
  | alias (name : String)
  | anchor (name : String)
  | tag (handle : String) (suffix : Tag)
  | scalar (style : Style) (text : String)
  deriving DecidableEq, Repr

/-- The beginning of something that may be a key. -/
structure PossibleKey where
  /-- How many tokens come before it. -/
  position : Nat
  start : Glyph
  /-- Whether it has to be a key, because nothing else can stand there. -/
  required : Bool
  deriving DecidableEq, Repr

structure Scanner where
  tokens : Array Token := #[]
  /-- The column of the innermost block collection. -/
  indent : Int := -1
  outer : List Int := []
  keyAllowed : Bool := true
  /-- The possible key at each level of brackets, the innermost first. -/
  keys : List (Option PossibleKey) := [none]
  deriving DecidableEq, Repr

namespace Scanner

def inFlow (s : Scanner) : Bool := s.keys.length > 1

def emit (token : Token) (s : Scanner) : Scanner := { s with tokens := s.tokens.push token }

def insertAt (position : Nat) (token : Token) (s : Scanner) : Scanner :=
  { s with tokens := s.tokens.insertIdxIfInBounds position token }

/-! ## Possible keys -/

/-- A key is on one line and not longer than this. -/
def maxKeyLength : Nat := 1024

def setKey (key : Option PossibleKey) (s : Scanner) : Scanner :=
  { s with keys := key :: s.keys.tail }

/-- Gives up the possible key at this level. -/
def forgetKey (s : Scanner) : Option Scanner :=
  match s.keys with
  | some key :: _ => if key.required then none else some (s.setKey none)
  | _ => some s

/-- Remembers that a key may begin here. -/
def markKey (g : Glyph) (s : Scanner) : Option Scanner :=
  if s.keyAllowed then do
    let s ← s.forgetKey
    return s.setKey (some ⟨s.tokens.size, g, !s.inFlow && s.indent = g.column⟩)
  else some s

def isTooFarBack (g : Glyph) (key : PossibleKey) : Bool :=
  key.start.line < g.line || key.start.index + maxKeyLength < g.index

/-- Gives up the possible keys that are too far back. -/
def forgetOldKeys (g : Glyph) (s : Scanner) : Option Scanner := do
  let keys ← s.keys.mapM fun key =>
    match key with
    | some key => if isTooFarBack g key then if key.required then none else some none else some (some key)
    | none => some none
  return { s with keys }

/-! ## Indentation -/

/-- Closes the block collections to the right of a column. -/
def closeFrom (column : Int) (indent : Int) : List Int → Nat × Int × List Int
  | [] => (0, indent, [])
  | outer :: rest =>
    if column < indent then
      let (closed, indent, rest) := closeFrom column outer rest
      (closed + 1, indent, rest)
    else (0, indent, outer :: rest)

def closeDeeper (column : Int) (s : Scanner) : Scanner :=
  if s.inFlow then s
  else
    let (closed, indent, outer) := closeFrom column s.indent s.outer
    { s with tokens := s.tokens ++ Array.replicate closed Token.blockEnd, indent, outer }

/-- Opens a block collection at a column that is further right than the innermost one. -/
def openBlock (column : Nat) (position : Nat) (token : Token) (s : Scanner) : Scanner :=
  if !s.inFlow && s.indent < column then
    { s.insertAt position token with indent := column, outer := s.indent :: s.outer }
  else s

/-! ## Single tokens -/

def openBlockHere (g : Glyph) (token : Token) (s : Scanner) : Scanner :=
  s.openBlock g.column s.tokens.size token

/-- Closes all block collections. -/
def leaveBlocks (s : Scanner) : Option Scanner :=
  (s.closeDeeper (-1)).forgetKey.map fun s => { s with keyAllowed := false }

def flowStart (g : Glyph) (token : Token) (s : Scanner) : Option Scanner := do
  let s ← s.markKey g
  return { s with keys := none :: s.keys, keyAllowed := true }.emit token

def flowEnd (token : Token) (s : Scanner) : Option Scanner := do
  let s ← s.forgetKey
  let keys := if s.inFlow then s.keys.tail else s.keys
  return { s with keys, keyAllowed := false }.emit token

def flowEntry (s : Scanner) : Option Scanner := do
  let s ← s.forgetKey
  return { s with keyAllowed := true }.emit .flowEntry

def blockEntry (g : Glyph) (s : Scanner) : Option Scanner := do
  if !s.inFlow && !s.keyAllowed then none
  let s ← (s.openBlockHere g .blockSequenceStart).forgetKey
  return { s with keyAllowed := true }.emit .blockEntry

/-- A question mark in front of a key. -/
def explicitKey (g : Glyph) (s : Scanner) : Option Scanner := do
  if !s.inFlow && !s.keyAllowed then none
  let s ← (s.openBlockHere g .blockMappingStart).forgetKey
  return { s with keyAllowed := !s.inFlow }.emit .key

/-- A colon, which makes a key of the possible key before it. -/
def value (g : Glyph) (s : Scanner) : Option Scanner :=
  match s.keys with
  | some key :: _ =>
    let s := (s.insertAt key.position .key).openBlock key.start.column key.position .blockMappingStart
    some ({ s.setKey none with keyAllowed := false }.emit .value)
  | _ => do
    if !s.inFlow && !s.keyAllowed then none
    let s := s.openBlockHere g .blockMappingStart
    return { s with keyAllowed := !s.inFlow }.emit .value

/-- A token that may begin a key. -/
def content (g : Glyph) (token : Token) (s : Scanner) : Option Scanner := do
  let s ← s.markKey g
  return { s with keyAllowed := false }.emit token

/-- The characters that mean something at the beginning of a token. -/
def indicators : List Char :=
  ['-', '?', ':', ',', '[', ']', '{', '}', '#', '&', '*', '!', '|', '>', '\'', '"', '%', '@',
    '\x60']

/-- Whether a plain scalar can begin with a character. -/
def startsPlain (inFlow : Bool) (g : Glyph) (rest : Glyphs) : Bool :=
  (!g.isSpace && !indicators.contains g.char) ||
  (g.char = '-' && !Glyphs.startsWithAny [' ', '\t'] rest) ||
  (!inFlow && (g.char = '?' || g.char = ':') && !Glyphs.atSpace rest)

def blockScalar (isFolded : Bool) (text : Glyphs) (s : Scanner) : Option (Scanner × Glyphs) := do
  let s ← s.forgetKey
  let (content, rest) ← blockScalar? isFolded s.indent text
  let style := if isFolded then Style.folded else .literal
  return ({ s with keyAllowed := true }.emit (.scalar style content), rest)

/-- A plain scalar over several lines lets a key follow. -/
def plainScalar (g : Glyph) (text : Glyphs) (s : Scanner) : Option (Scanner × Glyphs) := do
  let (scalar, rest) ← plainFrom s.inFlow (s.indent + 1) {} text
  let s ← s.content g (.scalar .plain scalar.text)
  return ({ s with keyAllowed := scalar.gap.broken }, rest)

/-- The token at a character. -/
def readToken (g : Glyph) (rest : Glyphs) (s : Scanner) : Option (Scanner × Glyphs) :=
  let c := g.char
  if g.column = 0 && c = '%' then do
    let s ← s.leaveBlocks
    let (directive, rest) ← directive? rest
    return (s.emit (.directive directive), rest)
  else if Glyphs.atDocumentMark (g :: rest) then do
    let s ← s.leaveBlocks
    return (s.emit (if c = '-' then .documentStart else .documentEnd), rest.drop 2)
  else if c = '[' then (s.flowStart g .flowSequenceStart).map (·, rest)
  else if c = '{' then (s.flowStart g .flowMappingStart).map (·, rest)
  else if c = ']' then (s.flowEnd .flowSequenceEnd).map (·, rest)
  else if c = '}' then (s.flowEnd .flowMappingEnd).map (·, rest)
  else if c = ',' then s.flowEntry.map (·, rest)
  else if c = '-' && Glyphs.atSpace rest then (s.blockEntry g).map (·, rest)
  else if c = '?' && (s.inFlow || Glyphs.atSpace rest) then (s.explicitKey g).map (·, rest)
  else if c = ':' && (s.inFlow || Glyphs.atSpace rest) then (s.value g).map (·, rest)
  else if c = '*' then do
    let (name, rest) ← anchorName? rest
    return (← s.content g (.alias name), rest)
  else if c = '&' then do
    let (name, rest) ← anchorName? rest
    return (← s.content g (.anchor name), rest)
  else if c = '!' then do
    let ((handle, suffix), rest) ← tag? (g :: rest)
    if !Glyphs.atSpace rest && !(s.inFlow && Glyphs.startsWith ',' rest) then none
    return (← s.content g (.tag handle suffix), rest)
  else if c = '|' && !s.inFlow then s.blockScalar false rest
  else if c = '>' && !s.inFlow then s.blockScalar true rest
  else if c = '\'' then do
    let (content, rest) ← singleQuotedFrom "" {} rest
    return (← s.content g (.scalar .singleQuoted content), rest)
  else if c = '"' then do
    let (content, rest) ← doubleQuotedFrom "" (.words {}) rest
    return (← s.content g (.scalar .doubleQuoted content), rest)
  else if startsPlain s.inFlow g rest then s.plainScalar g (g :: rest)
  else none

/-! ## Whole streams -/

/-- Skips blanks, comments and line breaks. Tabs are no indentation, and after a line break a key may
follow, both outside brackets only. A byte order mark may begin a line. -/
def skipSpace (inFlow : Bool) : (keyAllowed inComment : Bool) → Glyphs → Bool × Glyphs
  | keyAllowed, _, [] => (keyAllowed, [])
  | keyAllowed, inComment, g :: rest =>
    if g.isBreak then skipSpace inFlow (keyAllowed || !inFlow) false rest
    else if inComment || g.char = ' ' || (g.char = '\t' && (inFlow || !keyAllowed)) ||
        (g.char = '\ufeff' && g.column = 0) then
      skipSpace inFlow keyAllowed inComment rest
    else if g.char = '#' then skipSpace inFlow keyAllowed true rest
    else (keyAllowed, g :: rest)

/-- Reads on to the end of the stream, where at most `steps` characters begin a token. -/
def scanFrom : (steps : Nat) → Scanner → Glyphs → Option (List Token)
  | 0, s, _ => s.leaveBlocks.map (·.tokens.toList)
  | steps + 1, s, text =>
    let (keyAllowed, here) := skipSpace s.inFlow s.keyAllowed false text
    let s := { s with keyAllowed }
    match here with
    | [] => s.leaveBlocks.map (·.tokens.toList)
    | g :: rest => do
      let s ← s.forgetOldKeys g
      let (s, rest) ← (s.closeDeeper g.column).readToken g rest
      scanFrom steps s rest

end Scanner

/-- The tokens of a stream. Each of them takes a character at least. -/
def tokens? (text : String) : Option (List Token) := do
  let glyphs ← glyphs? text
  Scanner.scanFrom glyphs.length {} glyphs

end ClassCoupling.Yaml
