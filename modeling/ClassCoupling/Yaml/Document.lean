import ClassCoupling.Yaml.Token

/-!
# Documents

The nodes of a document. The number of an anchor is how many different names come before it, so that
a name that is taken again has its new number in common with the next new name. An alias has the
number that its name got last. It stands for the node with that number that begins last in the whole
document, which may be a later node or one that the alias lies in.
-/

namespace ClassCoupling.Yaml

inductive Node where
  | alias (anchor : Nat)
  | scalar (tag : Option Tag) (style : Style) (text : String)
  | sequence (tag : Option Tag) (items : List Node)
  | mapping (tag : Option Tag) (entries : List (Node × Node))

/-- What stands where nothing is written. -/
def Node.empty : Node := .scalar none .plain ""

structure Document where
  root : Node
  /-- The nodes with an anchor, by its number. The node that begins last comes first. -/
  anchored : List (Nat × Node)
  /-- One for every scalar and alias, two for every collection. -/
  size : Nat

/-! ## Reading tokens -/

structure Anchor where
  /-- How many different names come before it. -/
  number : Nat
  /-- How many nodes with an anchor end before its node begins. -/
  ended : Nat
  deriving DecidableEq, Repr

/-- What is left of the tokens, and what a document has so far. -/
structure Progress where
  tokens : List Token
  /-- The names of the anchors so far, with their numbers. -/
  names : List (String × Nat) := []
  /-- The nodes with an anchor so far, by its number. The one that begins last comes first. -/
  anchored : List (Nat × Node) := []
  size : Nat := 0

abbrev NodeReader := StateT Progress Option

namespace NodeReader

def atAny (tokens : List Token) : NodeReader Bool := do
  return (← get).tokens.head?.any tokens.contains

/-- Takes a token if it is the next one. -/
def take (token : Token) : NodeReader Bool := do
  if ← atAny [token] then
    modify fun p => { p with tokens := p.tokens.tail }
    return true
  return false

def require (token : Token) : NodeReader Unit := do
  if !(← take token) then failure

def count (size : Nat) : NodeReader Unit :=
  modify fun p => { p with size := p.size + size }

def nothing : NodeReader Node := do
  count 1
  return .empty

/-- Reads a node unless one of the tokens that may follow it comes at once. -/
def unlessAt (ends : List Token) (node : NodeReader Node) : NodeReader Node := do
  if ← atAny ends then nothing else node

def takeAnchor : NodeReader (Option Anchor) := do
  let p ← get
  match p.tokens with
  | .anchor name :: rest =>
    let number := p.names.length
    set { p with tokens := rest, names := (name, number) :: p.names.filter (·.1 ≠ name) }
    return some ⟨number, p.anchored.length⟩
  | _ => return none

/-- Takes a tag, whose handle stands for the beginning of it. -/
def takeTag (handles : List (String × Tag)) : NodeReader (Option Tag) := do
  let p ← get
  match p.tokens with
  | .tag handle suffix :: rest =>
    let start ← if handle = "" then some [] else handles.lookup handle
    set { p with tokens := rest }
    return some (start ++ suffix)
  | _ => return none

structure Properties where
  anchor : Option Anchor
  tag : Option Tag

/-- An anchor and a tag, in either order. -/
def properties (handles : List (String × Tag)) : NodeReader Properties := do
  let anchor ← takeAnchor
  let tag ← takeTag handles
  let anchor ← if anchor.isSome then pure anchor else takeAnchor
  return ⟨anchor, tag⟩

/-- Ends a node, which its anchor then refers to. The nodes inside it begin later. -/
def finish (anchor : Option Anchor) (size : Nat) (node : Node) : NodeReader Node := do
  count size
  if let some anchor := anchor then
    modify fun p =>
      let (inside, before) := p.anchored.splitAt (p.anchored.length - anchor.ended)
      { p with anchored := inside ++ (anchor.number, node) :: before }
  return node

/-- An alias, with the number that its name got last. -/
def aliasOf (name : String) : NodeReader Node := do
  finish none 1 (.alias (← (← get).names.lookup name))

mutual

/-- A node. Where a mapping is, a sequence may be as far left as the mapping itself. -/
def node (handles : List (String × Tag)) (inMapping : Bool) : Nat → NodeReader Node
  | 0 => failure
  | fuel + 1 => do
    if let some (.alias name) := (← get).tokens.head? then
      modify fun p => { p with tokens := p.tokens.tail }
      return ← aliasOf name
    let ⟨anchor, tag⟩ ← properties handles
    let p ← get
    let next := p.tokens.head?
    let skip : NodeReader Unit := set { p with tokens := p.tokens.tail }
    match next with
    | some (.scalar style text) => do
      skip
      finish anchor 1 (.scalar tag style text)
    | some .flowSequenceStart => do
      skip
      finish anchor 2 (.sequence tag (← flowItems handles true fuel))
    | some .flowMappingStart => do
      skip
      finish anchor 2 (.mapping tag (← flowEntries handles true fuel))
    | some .blockSequenceStart => do
      skip
      finish anchor 2 (.sequence tag (← blockItems handles fuel))
    | some .blockMappingStart => do
      skip
      finish anchor 2 (.mapping tag (← blockEntries handles fuel))
    | _ =>
      if inMapping && next = some .blockEntry then
        finish anchor 2 (.sequence tag (← leftItems handles fuel))
      else if anchor.isSome || tag.isSome then finish anchor 1 (.scalar tag .plain "")
      else failure

def blockItems (handles : List (String × Tag)) : Nat → NodeReader (List Node)
  | 0 => failure
  | fuel + 1 => do
    if ← take .blockEnd then return []
    require .blockEntry
    let item ← unlessAt [.blockEntry, .blockEnd] (node handles false fuel)
    return item :: (← blockItems handles fuel)

/-- The items of a sequence that is as far left as the mapping it lies in. -/
def leftItems (handles : List (String × Tag)) : Nat → NodeReader (List Node)
  | 0 => failure
  | fuel + 1 => do
    if !(← take .blockEntry) then return []
    let item ← unlessAt [.blockEntry, .key, .value, .blockEnd] (node handles false fuel)
    return item :: (← leftItems handles fuel)

def blockEntries (handles : List (String × Tag)) : Nat → NodeReader (List (Node × Node))
  | 0 => failure
  | fuel + 1 => do
    if ← take .blockEnd then return []
    require .key
    let read := unlessAt [.key, .value, .blockEnd] (node handles true fuel)
    let key ← read
    let value ← if ← take .value then read else nothing
    return (key, value) :: (← blockEntries handles fuel)

def flowItems (handles : List (String × Tag)) (first : Bool) : Nat → NodeReader (List Node)
  | 0 => failure
  | fuel + 1 => do
    if ← take .flowSequenceEnd then return []
    if !first then require .flowEntry
    if ← take .flowSequenceEnd then return []
    let item ← if ← take .key then singlePair handles fuel else node handles false fuel
    return item :: (← flowItems handles false fuel)

/-- A mapping of one entry without its braces. If the key is missing, the token in its place is
passed over. -/
def singlePair (handles : List (String × Tag)) : Nat → NodeReader Node
  | 0 => failure
  | fuel + 1 => do
    let key ←
      if ← atAny [.value, .flowEntry, .flowSequenceEnd] then do
        modify fun p => { p with tokens := p.tokens.tail }
        nothing
      else node handles false fuel
    let value ←
      if ← take .value then unlessAt [.flowEntry, .flowSequenceEnd] (node handles false fuel)
      else nothing
    finish none 2 (.mapping none [(key, value)])

def flowEntries (handles : List (String × Tag)) (first : Bool) :
    Nat → NodeReader (List (Node × Node))
  | 0 => failure
  | fuel + 1 => do
    if ← take .flowMappingEnd then return []
    if !first then require .flowEntry
    if ← take .flowMappingEnd then return []
    if ← take .key then
      let key ← unlessAt [.value, .flowEntry, .flowMappingEnd] (node handles false fuel)
      let value ←
        if ← take .value then unlessAt [.flowEntry, .flowMappingEnd] (node handles false fuel)
        else nothing
      return (key, value) :: (← flowEntries handles false fuel)
    else
      let key ← node handles false fuel
      return (key, ← nothing) :: (← flowEntries handles false fuel)

end

end NodeReader

/-! ## Whole documents -/

namespace Document

/-- How the tags of the core types begin. -/
def coreStart : Tag := asciiTag "tag:yaml.org,2002:".toList

def defaultHandles : List (String × Tag) := [("!", asciiTag ['!']), ("!!", coreStart)]

/-- Reads the directives of a document up to its start, with the handles they define. -/
def takeDirectives (versionKnown : Bool) (handles : List (String × Tag)) :
    List Token → Option (List (String × Tag) × List Token)
  | .directive (.version major minor) :: rest =>
    if versionKnown || major ≠ 1 || (minor ≠ 1 && minor ≠ 2) then none
    else takeDirectives true handles rest
  | .directive (.tag handle start) :: rest =>
    if (handles.lookup handle).isSome then none
    else takeDirectives versionKnown (handles ++ [(handle, start)]) rest
  | .documentStart :: rest => some (handles ++ defaultHandles, rest)
  | _ => none

def startsDocument : Token → Bool
  | .directive _ | .documentStart => true
  | _ => false

/-- Whether a document ends where it has only started. -/
def isOver : List Token → Bool
  | [] => true
  | token :: _ => startsDocument token || token = .documentEnd

/-- The only document of a stream; a stream without one holds an empty document. -/
def ofTokens? (tokens : List Token) : Option Document := do
  let explicit := tokens.head?.any startsDocument
  let (handles, body) ←
    if explicit then takeDirectives false [] tokens else some (defaultHandles, tokens)
  let content : NodeReader Node :=
    if tokens = [] || (explicit && isOver body) then NodeReader.nothing
    else NodeReader.node handles false (2 * body.length + 2)
  let (root, last) ← content.run { tokens := body }
  if last.tokens.dropWhile (· = .documentEnd) ≠ [] then none
  return ⟨root, last.anchored, last.size⟩

def ofString? (text : String) : Option Document := do
  ofTokens? (← tokens? text)

end Document

end ClassCoupling.Yaml
