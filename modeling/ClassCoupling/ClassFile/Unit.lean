import ClassCoupling.ClassFile.Constant
import ClassCoupling.ClassFile.Descriptor
import ClassCoupling.Problem
import ClassCoupling.Text.Cut
import ClassCoupling.Text.NameSet
import ClassCoupling.Text.Utf8

/-!
# Compiled units

A unit is known by its dotted name and the names it refers to: the classes of its constant pool,
arrays apart, and the object types in every text that is not a string literal.
-/

namespace ClassCoupling.ClassFile

open Text

def magic : Nat := 0xcafebabe

def defaultMaxMajor : Nat := 57

namespace ConstantPool

def text? (pool : ConstantPool) (slot : Nat) : Option String :=
  match pool.lookup slot with
  | some (.utf8 bytes) => some (Utf8.decode bytes)
  | _ => none

/-- The name of the class at a slot, as written in the pool. -/
def className? (pool : ConstantPool) (slot : Nat) : Option String :=
  match pool.lookup slot with
  | some (.classRef name) => pool.text? name
  | _ => none

/-- The names of all classes in the pool. -/
def classes (pool : ConstantPool) : List String :=
  pool.filterMap fun (slot, _) => pool.className? slot

/-- The slots whose text is a string literal. -/
def literals (pool : ConstantPool) : List Nat :=
  pool.filterMap fun
    | (_, .stringRef text) => some text
    | _ => none

/-- The texts that are no string literals. -/
def plainTexts (pool : ConstantPool) : List String :=
  let literals := pool.literals
  pool.filterMap fun
    | (slot, .utf8 bytes) => if slot ∈ literals then none else some (Utf8.decode bytes)
    | _ => none

end ConstantPool

/-- A class name with dots. -/
def dotted (name : String) : String := replace '/' '.' name

/-- The dotted names of the object types in a text. -/
def namesIn (text : String) : List String :=
  (Descriptor.classNames text.toList).map fun name => dotted (String.ofList name)

def ConstantPool.referencedNames (pool : ConstantPool) : List String :=
  (pool.classes.filter fun name => !startsWith "[" name).map dotted ++
    pool.plainTexts.flatMap namesIn

structure ParsedUnit where
  name : String
  /-- What the unit refers to, itself apart. -/
  dependencies : NameSet
  deriving DecidableEq, Repr, Inhabited

/-- The part after the last dot. -/
def ParsedUnit.simpleName (unit : ParsedUnit) : String :=
  match atLast? '.' unit.name with
  | some (_, simple) => simple
  | none => unit.name

/-- The format version, once the magic number was right. -/
def readHeader (s : Stream) : Except Defect (Nat × Stream) := do
  let (found, s) ← s.number 4
  if found ≠ magic then throw (.badMagic found)
  let (_, s) ← s.pass 2
  s.number 2

/-- The pool and the name the unit declares for itself. -/
def readBody (s : Stream) : Except Defect (ConstantPool × String) := do
  let (pool, s) ← ConstantPool.read s
  let (_, s) ← s.pass 2
  let (own, _) ← s.number 2
  match pool.className? own with
  | some name => return (pool, dotted name)
  | none => throw (.ownIndex own)

/-- Reads a unit that has to declare the name `expected`. -/
def parse (maxMajor : Nat) (expected : String) (s : Stream) : Except Problem ParsedUnit := do
  let malformed (d : Defect) := Problem.malformedUnit expected d.describe
  let (major, s) ← (readHeader s).mapError malformed
  if maxMajor < major then throw (.unsupportedVersion expected major maxMajor)
  let (pool, declared) ← (readBody s).mapError malformed
  if declared ≠ expected then throw (.nameMismatch expected declared)
  return ⟨declared, NameSet.ofList (pool.referencedNames.filter (· ≠ declared))⟩

end ClassCoupling.ClassFile
