import ClassCoupling.ClassFile.Stream

/-!
# The constant pool

The pool is read as a list of constants, each with the slot it starts at. Slots are counted from 1;
eight-byte constants take two. Constants that name no class keep their bytes unread.
-/

namespace ClassCoupling.ClassFile

/-- Constants of a fixed length that play no part in naming classes. -/
inductive FixedKind where
  | integer
  | float
  | long
  | double
  | fieldRef
  | methodRef
  | interfaceMethodRef
  | nameAndType
  | methodHandle
  | methodType
  | invokeDynamic
  deriving DecidableEq, Repr

namespace FixedKind

def all : List FixedKind :=
  [integer, float, long, double, fieldRef, methodRef, interfaceMethodRef, nameAndType,
    methodHandle, methodType, invokeDynamic]

def tag : FixedKind → UInt8
  | integer => 3
  | float => 4
  | long => 5
  | double => 6
  | fieldRef => 9
  | methodRef => 10
  | interfaceMethodRef => 11
  | nameAndType => 12
  | methodHandle => 15
  | methodType => 16
  | invokeDynamic => 18

/-- Number of bytes after the tag. -/
def length : FixedKind → Nat
  | long | double => 8
  | methodHandle => 3
  | methodType => 2
  | _ => 4

def ofTag? (t : UInt8) : Option FixedKind := all.find? (·.tag = t)

end FixedKind

inductive Constant where
  | utf8 (bytes : List UInt8)
  /-- A class; its name stands at another slot. -/
  | classRef (name : Nat)
  /-- A string literal; its text stands at another slot. -/
  | stringRef (text : Nat)
  | fixed (kind : FixedKind) (payload : List UInt8)
  deriving DecidableEq, Repr

namespace Constant

def utf8Tag : UInt8 := 1
def classTag : UInt8 := 7
def stringTag : UInt8 := 8

/-- Number of slots the constant takes. -/
def width : Constant → Nat
  | fixed .long _ | fixed .double _ => 2
  | _ => 1

theorem width_pos (c : Constant) : 0 < c.width := by
  unfold width
  split <;> decide

/-- A constant whose tag was read already. The slot is only named in the defect of an unknown
tag. -/
def readTagged (slot : Nat) (tag : UInt8) (s : Stream) : Except Defect (Constant × Stream) := do
  if tag = utf8Tag then
    let (length, s) ← s.number 2
    let (bytes, s) ← s.take length
    return (.utf8 bytes, s)
  else if tag = classTag then
    let (name, s) ← s.number 2
    return (.classRef name, s)
  else if tag = stringTag then
    let (text, s) ← s.number 2
    return (.stringRef text, s)
  else
    match FixedKind.ofTag? tag with
    | some kind =>
      let (payload, s) ← s.pass kind.length
      return (.fixed kind payload, s)
    | none => throw (.unknownTag tag slot)

/-- One constant, tag included. -/
def read (slot : Nat) (s : Stream) : Except Defect (Constant × Stream) := do
  let (tagByte, s) ← s.take 1
  readTagged slot (tagByte.headD 0) s

end Constant

/-- Constants with the slots they start at, in increasing order. -/
abbrev ConstantPool := List (Nat × Constant)

namespace ConstantPool

/-- The constants from `slot` on; the last one may reach beyond `size`. -/
def readFrom (size slot : Nat) (s : Stream) : Except Defect (ConstantPool × Stream) :=
  if slot < size then do
    let (constant, s) ← Constant.read slot s
    have := constant.width_pos
    let (others, s) ← readFrom size (slot + constant.width) s
    return ((slot, constant) :: others, s)
  else .ok ([], s)
termination_by size - slot
decreasing_by omega

def read (s : Stream) : Except Defect (ConstantPool × Stream) := do
  let (size, s) ← s.number 2
  readFrom size 1 s

end ConstantPool

end ClassCoupling.ClassFile
