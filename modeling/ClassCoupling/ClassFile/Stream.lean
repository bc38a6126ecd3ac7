/-!
# Byte streams

A stream holds the bytes still to come and what happens when they run out. Bytes that matter are read
into a buffer, which has to be filled; others are copied away and counted. Either way they are taken
from the front, and a read of nothing always succeeds.
-/

namespace ClassCoupling.ClassFile

/-- What kind of error ends a read. An interruption is none: the read is tried again. -/
inductive ErrorKind where
  /-- The stream ended too early. -/
  | unexpectedEnd
  | other
  deriving DecidableEq, Repr

structure ReadError where
  kind : ErrorKind
  text : String
  deriving DecidableEq, Repr

/-- Why bytes are not a compiled unit. -/
inductive Defect where
  | truncated
  | unreadable (details : String)
  | badMagic (found : Nat)
  | unknownTag (tag : UInt8) (slot : Nat)
  | ownIndex (index : Nat)
  deriving DecidableEq, Repr, Inhabited

/-- Eight capital hexadecimal digits. -/
def hexWord (n : Nat) : String :=
  let digits := (Nat.toDigits 16 n).map Char.toUpper
  String.ofList (List.replicate (8 - digits.length) '0' ++ digits)

def Defect.describe : Defect → String
  | truncated => "stream ends unexpectedly"
  | unreadable details => details
  | badMagic found => "bad magic number 0x" ++ hexWord found
  | unknownTag tag slot =>
    "unknown constant tag " ++ toString tag.toNat ++ " at pool slot " ++ toString slot
  | ownIndex index => "own class index " ++ toString index ++ " does not name a class"

/-- What is said of an error; its text counts only if it says more than that the stream ended. -/
def Defect.ofReadError (error : ReadError) : Defect :=
  match error.kind with
  | .unexpectedEnd => .truncated
  | .other => .unreadable error.text

/-- Bytes, and the error of any read past them; without one the stream just ends. -/
structure Stream where
  bytes : List UInt8
  failure : Option ReadError := none
  deriving DecidableEq, Repr

namespace Stream

/-- Fills a buffer of `n` bytes. -/
def fill (n : Nat) (s : Stream) : Except ReadError (List UInt8 × Stream) :=
  if n ≤ s.bytes.length then .ok (s.bytes.take n, { s with bytes := s.bytes.drop n })
  else
    match s.failure with
    | some error => .error error
    | none => .error ⟨.unexpectedEnd, "failed to fill whole buffer"⟩

/-- Copies up to `n` bytes. To a copy the end of the stream is no error. -/
def copy (n : Nat) (s : Stream) : Except ReadError (List UInt8 × Stream) :=
  if n ≤ s.bytes.length then .ok (s.bytes.take n, { s with bytes := s.bytes.drop n })
  else
    match s.failure with
    | some error => .error error
    | none => .ok (s.bytes, { s with bytes := [] })

/-- Passes over `n` bytes: they are copied, and have to be as many. -/
def skip (n : Nat) (s : Stream) : Except ReadError (List UInt8 × Stream) := do
  let (skipped, s) ← s.copy n
  if skipped.length < n then throw ⟨.unexpectedEnd, "unexpected end of file"⟩
  return (skipped, s)

/-- The next `n` bytes and the stream after them. -/
def take (n : Nat) (s : Stream) : Except Defect (List UInt8 × Stream) :=
  (s.fill n).mapError .ofReadError

/-- The next `n` bytes, which are not looked at, and the stream after them. -/
def pass (n : Nat) (s : Stream) : Except Defect (List UInt8 × Stream) :=
  (s.skip n).mapError .ofReadError

/-- The number a big-endian byte string stands for. -/
def bigEndian (bytes : List UInt8) : Nat :=
  bytes.foldl (fun n b => n * 256 + b.toNat) 0

/-- The next `n` bytes as a big-endian number. -/
def number (n : Nat) (s : Stream) : Except Defect (Nat × Stream) := do
  let (bytes, rest) ← s.take n
  return (bigEndian bytes, rest)

end Stream

end ClassCoupling.ClassFile
