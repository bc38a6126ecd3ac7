import ClassCoupling.Yaml.Scalar

/-!
# Names, tags and directives
-/

namespace ClassCoupling.Yaml

/-! ## Anchors and aliases -/

/-- The name of an anchor or alias, after its indicator. -/
def anchorName? (text : Glyphs) : Option (String × Glyphs) :=
  let name := text.takeWhile Glyph.isWord
  let rest := text.dropWhile Glyph.isWord
  if name ≠ [] && (Glyphs.atSpace rest ||
      Glyphs.startsWithAny ['?', ':', ',', ']', '}', '%', '@', '\x60'] rest) then
    some (Glyphs.string name, rest)
  else none

/-! ## Tags -/

def isTagChar (verbatim : Bool) (g : Glyph) : Bool :=
  g.isWord || [';', '/', '?', ':', '@', '&', '=', '+', '$', '.', '%', '!', '~', '*', '\'', '(',
    ')'].contains g.char || (verbatim && [',', '[', ']'].contains g.char)

/-- A tag in bytes, which need not be the bytes of a text. -/
abbrev Tag := List UInt8

/-- The bytes of ASCII characters. -/
def asciiTag (text : List Char) : Tag := text.map Char.toUInt8

/-- How many bytes of a character follow its first one. -/
def followers? (first : Nat) : Option Nat :=
  if first < 0x80 then some 0
  else if 0xc0 ≤ first ∧ first < 0xe0 then some 1
  else if 0xe0 ≤ first ∧ first < 0xf0 then some 2
  else if 0xf0 ≤ first ∧ first < 0xf8 then some 3
  else none

/-- Decodes the percent escapes of a tag: `more` bytes of a character are still to come. Which
character they are does not matter. -/
def decodeTag : (more : Nat) → List Char → Option Tag
  | 0, [] => some []
  | _, [] => none
  | more, '%' :: high :: low :: rest => do
    let byte := 16 * (← hexValue? high) + (← hexValue? low)
    let more ←
      match more with
      | 0 => followers? byte
      | more + 1 => if 0x80 ≤ byte ∧ byte < 0xc0 then some more else none
    return byte.toUInt8 :: (← decodeTag more rest)
  | 0, c :: rest => if c = '%' then none else (decodeTag 0 rest).map (c.toUInt8 :: ·)
  | _, _ => none

/-- What is written of a tag after what was read of it before, which may leave nothing. A zero byte
ends the tag. -/
def tagText? (verbatim mayBeEmpty : Bool) (text : Glyphs) : Option (Tag × Glyphs) := do
  let run := text.takeWhile (isTagChar verbatim)
  if run = [] && !mayBeEmpty then none
  let written ← decodeTag 0 (Glyphs.chars run)
  return (written.takeWhile (· ≠ 0), text.dropWhile (isTagChar verbatim))

/-- A handle: `!`, or word characters between two of them. Without a second one what was read is
part of the tag itself. -/
def tagHandle? : Glyphs → Option (List Char × Glyphs)
  | [] => none
  | g :: text =>
    if g.char ≠ '!' then none
    else
      let word := Glyphs.chars (text.takeWhile Glyph.isWord)
      match text.dropWhile Glyph.isWord with
      | [] => some ('!' :: word, [])
      | h :: rest =>
        if h.char = '!' then some ('!' :: word ++ ['!'], rest) else some ('!' :: word, h :: rest)

def isNamedHandle (handle : List Char) : Bool :=
  handle.length > 1 && handle.getLast? = some '!'

/-- A tag as written: its handle and what follows, from its first `!` on. -/
def tag? (text : Glyphs) : Option ((String × Tag) × Glyphs) :=
  match text with
  | _ :: g :: rest =>
    if g.char = '<' then do
      let (suffix, rest) ← tagText? true false rest
      match rest with
      | close :: rest =>
        if close.char = '>' then some (("", suffix), rest) else none
      | [] => none
    else shorthand text
  | _ => shorthand text
where
  shorthand (text : Glyphs) : Option ((String × Tag) × Glyphs) := do
    let (handle, rest) ← tagHandle? text
    if isNamedHandle handle then
      let (suffix, rest) ← tagText? false false rest
      return ((String.ofList handle, suffix), rest)
    else
      let (suffix, rest) ← tagText? false true rest
      let suffix := asciiTag (handle.drop 1) ++ suffix
      return (if suffix = [] then ("", asciiTag ['!']) else ("!", suffix), rest)

/-! ## Directives -/

inductive Directive where
  | version (major minor : Nat)
  | tag (handle : String) (start : Tag)
  deriving DecidableEq, Repr

/-- A number of at most nine digits. -/
def number? (text : Glyphs) : Option (Nat × Glyphs) :=
  let digits := Glyphs.chars (text.takeWhile (·.char.isDigit))
  if digits = [] || digits.length > 9 then none
  else
    some (digits.foldl (fun n c => 10 * n + (c.toNat - '0'.toNat)) 0,
      text.dropWhile (·.char.isDigit))

def versionDirective? (text : Glyphs) : Option (Directive × Glyphs) := do
  let (major, text) ← number? (Glyphs.skipBlanks text)
  match text with
  | g :: text =>
    if g.char ≠ '.' then none
    let (minor, text) ← number? text
    return (.version major minor, text)
  | [] => none

def tagDirective? (text : Glyphs) : Option (Directive × Glyphs) := do
  let (handle, text) ← tagHandle? (Glyphs.skipBlanks text)
  if handle ≠ ['!'] && !isNamedHandle handle then none
  match text with
  | g :: _ =>
    if !g.isBlank then none
    let (start, text) ← tagText? true false (Glyphs.skipBlanks text)
    if !Glyphs.atSpace text then none
    return (.tag (String.ofList handle) start, text)
  | [] => none

/-- A directive after its indicator, with the rest of its line. -/
def directive? (text : Glyphs) : Option (Directive × Glyphs) := do
  let name := Glyphs.string (text.takeWhile Glyph.isWord)
  let text := text.dropWhile Glyph.isWord
  if !Glyphs.atSpace text then none
  let (directive, text) ←
    match name with
    | "YAML" => versionDirective? text
    | "TAG" => tagDirective? text
    | _ => none
  return (directive, ← Glyphs.finishLine? text)

end ClassCoupling.Yaml
