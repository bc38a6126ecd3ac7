import ClassCoupling.Decimal.Nearest
import ClassCoupling.Yaml.Document

/-!
# Values

What the nodes of a document mean. Plain scalars without a tag are told apart by how they are
written, and the keys of a mapping have to differ.
-/

namespace ClassCoupling.Yaml

inductive Value where
  | null
  | bool (value : Bool)
  | integer (value : Int)
  /-- Zero has no sign here, and there is one value that is no number. -/
  | float (negative : Bool) (magnitude : Decimal.Magnitude)
  | text (value : String)
  | sequence (items : List Value)
  | mapping (entries : List (Value × Value))

mutual

/-- Equality, for which the order of a mapping's entries does not matter. -/
def Value.same : Value → Value → Bool
  | .null, .null => true
  | .bool a, .bool b => a = b
  | .integer a, .integer b => a = b
  | .float s a, .float t b => s = t && a = b
  | .text a, .text b => a = b
  | .sequence a, .sequence b => sameItems a b
  | .mapping a, .mapping b => a.length = b.length && sameEntries a b
  | _, _ => false

def sameItems : List Value → List Value → Bool
  | [], [] => true
  | a :: as, b :: bs => a.same b && sameItems as bs
  | _, _ => false

def sameEntries : List (Value × Value) → List (Value × Value) → Bool
  | [], _ => true
  | (key, value) :: rest, entries =>
    entries.any (fun (k, v) => key.same k && value.same v) && sameEntries rest entries

end

/-! ## Plain scalars -/

def isNullWord (text : String) : Bool := ["null", "Null", "NULL", "~"].contains text

def boolOf? (text : String) : Option Bool :=
  if ["true", "True", "TRUE"].contains text then some true
  else if ["false", "False", "FALSE"].contains text then some false
  else none

def isSign (c : Char) : Bool := c = '+' || c = '-'

def dropPlus : List Char → List Char
  | '+' :: rest => rest
  | text => text

/-- Digits after a leading zero, which are no number. -/
def isZeroPadded (text : List Char) : Bool :=
  let text := if text.head?.any isSign then text.tail else text
  match text with
  | '0' :: rest => rest ≠ [] && rest.all Char.isDigit
  | _ => false

/-- A number written in a base, without a sign. -/
def naturalOf? (base : Nat) (text : List Char) : Option Nat :=
  if text = [] then none
  else
    text.foldlM (fun n c => (hexValue? c).bind fun d => if d < base then some (base * n + d) else none)
      0

/-- A natural number after its sign: in base sixteen, eight or two after a mark, else in base ten. -/
def markedNatural? (isPadded : Bool) (text : List Char) : Option Nat :=
  match text with
  | '0' :: 'x' :: digits => naturalOf? 16 digits
  | '0' :: 'o' :: digits => naturalOf? 8 digits
  | '0' :: 'b' :: digits => naturalOf? 2 digits
  | _ => if isPadded then none else naturalOf? 10 text

def integerOf? (text : List Char) : Option Int :=
  let isPadded := isZeroPadded text
  match text with
  | '-' :: digits => (markedNatural? isPadded digits).map fun n => -(n : Int)
  | '+' :: digits => (markedNatural? isPadded digits).map Int.ofNat
  | _ => (markedNatural? isPadded text).map Int.ofNat

/-- The digits of a decimal and how far its point is from their end. -/
def decimalOf? (text : List Char) : Option (Nat × Int) := do
  let whole := text.takeWhile Char.isDigit
  let rest := text.dropWhile Char.isDigit
  let (fraction, rest) :=
    match rest with
    | '.' :: rest => (rest.takeWhile Char.isDigit, rest.dropWhile Char.isDigit)
    | _ => ([], rest)
  let mantissa ← naturalOf? 10 (whole ++ fraction)
  let places : Int := fraction.length
  match rest with
  | [] => return (mantissa, -places)
  | mark :: exponent =>
    if mark ≠ 'e' && mark ≠ 'E' then none
    let digits := if exponent.head?.any isSign then exponent.tail else exponent
    let size : Int ← naturalOf? 10 digits
    return (mantissa, (if exponent.head? = some '-' then -size else size) - places)

/-- A number with a fraction or an exponent, if it is in range, or a word for one that is not. -/
def floatOf? (text : List Char) : Option Value :=
  let word := String.ofList text
  let unsigned := dropPlus text
  if [".inf", ".Inf", ".INF"].contains (String.ofList unsigned) then some (.float false .infinity)
  else if ["-.inf", "-.Inf", "-.INF"].contains word then some (.float true .infinity)
  else if [".nan", ".NaN", ".NAN"].contains word then some (.float false .nan)
  else
    let negative := unsigned.head? = some '-' && text.head? ≠ some '+'
    let digits := if negative then unsigned.tail else unsigned
    (decimalOf? digits).bind fun (mantissa, exponent) =>
      match Decimal.nearest mantissa exponent with
      | .finite mantissa exponent =>
        some (.float (negative && mantissa ≠ 0) (.finite mantissa exponent))
      | _ => none

/-- Whether an integer is one of 64 bits, with a sign or without. -/
def fits64 (n : Int) : Bool := -0x8000000000000000 ≤ n && n ≤ 0xffffffffffffffff

/-- Whether an integer is one of 128 bits, with a sign or without. -/
def fits128 (n : Int) : Bool :=
  -0x80000000000000000000000000000000 ≤ n && n ≤ 0xffffffffffffffffffffffffffffffff

/-- The value of a plain scalar without a tag. Integers of more than 64 bits have none, unless they
are so large that they are read as numbers with a fraction. -/
def plainValue? (text : String) : Option Value :=
  let chars := text.toList
  let number : Option Value := if isZeroPadded chars then none else floatOf? chars
  if text = "" || isNullWord text then some .null
  else
    match boolOf? text, integerOf? chars with
    | some b, _ => some (.bool b)
    | none, some n =>
      if fits64 n then some (.integer n)
      else if fits128 n then none
      else some (number.getD (.text text))
    | none, none => some (number.getD (.text text))

/-! ## Tags -/

def coreTag (name : String) : Tag := Document.coreStart ++ asciiTag name.toList

/-- Local tags begin with an exclamation mark. -/
def isLocal (tag : Tag) : Bool := tag.head? = some '!'.toUInt8

/-- Whether the bytes of a tag are UTF-8. -/
def isText (tag : Tag) : Bool := (String.fromUTF8? ⟨tag.toArray⟩).isSome

/-- Whether a tag names a type of the application's own, which has no meaning here. A local tag that
is no text names none. -/
def isForeign (tag : Tag) : Bool := isLocal tag && isText tag

def untaggedValue? (style : Style) (text : String) : Option Value :=
  if style = .plain then plainValue? text else some (.text text)

def scalarValue? (tag : Option Tag) (style : Style) (text : String) : Option Value :=
  match tag with
  | none => untaggedValue? style text
  | some tag =>
    if isForeign tag then none
    else if isLocal tag then untaggedValue? style text
    else if tag = coreTag "bool" then (boolOf? text).map .bool
    else if tag = coreTag "int" then
      (integerOf? text.toList).bind fun n => if fits64 n then some (.integer n) else none
    else if tag = coreTag "float" then floatOf? text.toList
    else if tag = coreTag "null" then if isNullWord text then some .null else none
    else some (.text text)

/-! ## Nodes -/

/-- Reading the nodes of a document, with the number of aliases that may still be followed. -/
abbrev ValueReader := StateT Nat Option

namespace Document

/-- The most collections inside one another. -/
def maxDepth : Nat := 128

def maxAliases (d : Document) : Nat := 100 * d.size

/-- The node itself, or the one an alias stands for. -/
def target (d : Document) : Node → ValueReader Node
  | .alias anchor => do
    match ← get with
    | 0 => failure
    | left + 1 =>
      set left
      d.anchored.lookup anchor
  | node => return node

/-- Adds an entry whose key is new. -/
def addEntry (entries : List (Value × Value)) (key value : Value) : Option (List (Value × Value)) :=
  if entries.any (·.1.same key) then none else some (entries ++ [(key, value)])

/-- The value of a node that may hold `depth` collections inside one another. -/
def value (d : Document) : (depth : Nat) → Node → ValueReader Value
  | 0, node => do
    match ← d.target node with
    | .scalar tag style text => scalarValue? tag style text
    | _ => failure
  | depth + 1, node => do
    match ← d.target node with
    | .scalar tag style text => scalarValue? tag style text
    | .sequence tag items =>
      if tag.any isForeign then failure
      return .sequence (← items.mapM (d.value depth))
    | .mapping tag entries =>
      if tag.any isForeign then failure
      let read ← entries.foldlM (fun read (key, value) => do
        let key ← d.value depth key
        let value ← d.value depth value
        (addEntry read key value : Option _)) []
      return .mapping read
    | .alias _ => failure

/-- The text of a scalar, whatever its tag. -/
def text (d : Document) (node : Node) : ValueReader String := do
  match ← d.target node with
  | .scalar _ _ text => return text
  | _ => failure

def flag (d : Document) (node : Node) : ValueReader Bool := do
  match ← d.target node with
  | .scalar tag style text =>
    if style = .plain || (style = .literal && tag = some (coreTag "bool")) then boolOf? text
    else failure
  | _ => failure

/-- A list of texts; nothing at all is an empty one. -/
def texts (d : Document) (node : Node) : ValueReader (List String) := do
  match ← d.target node with
  | .sequence _ items => items.mapM d.text
  | .scalar _ .plain "" => return []
  | _ => failure

/-- Reads a node unless it is plainly null. -/
def optional (d : Document) (read : Node → ValueReader α) (node : Node) :
    ValueReader (Option α) := do
  let node ← d.target node
  match node with
  | .scalar none .plain text =>
    if text = "" || isNullWord text then return none else some <$> read node
  | .scalar (some tag) .plain text =>
    if tag ≠ coreTag "null" then some <$> read node
    else if isNullWord text then return none
    else failure
  | _ => some <$> read node

end Document

end ClassCoupling.Yaml
