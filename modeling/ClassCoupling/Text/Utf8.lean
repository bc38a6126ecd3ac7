/-!
# UTF-8, and reading it when it may be damaged

`decode` never fails: every longest piece that starts a character but does not finish it, and every
byte that cannot start one, becomes one replacement character.
-/

namespace ClassCoupling.Text.Utf8

/-- A character begun: how many bytes are missing, which next bytes are allowed, the bits so far. -/
structure Pending where
  missing : Nat
  lowest : UInt8
  highest : UInt8
  bits : Nat
  deriving Repr

def replacement : Char := '�'

/-- What a byte means when no character is begun. -/
def start (b : UInt8) : Except Char Pending :=
  if b < 0x80 then .error (Char.ofNat b.toNat)
  else if 0xc2 ≤ b ∧ b ≤ 0xdf then .ok ⟨1, 0x80, 0xbf, b.toNat % 32⟩
  else if b = 0xe0 then .ok ⟨2, 0xa0, 0xbf, 0⟩
  else if b = 0xed then .ok ⟨2, 0x80, 0x9f, 13⟩
  else if 0xe1 ≤ b ∧ b ≤ 0xef then .ok ⟨2, 0x80, 0xbf, b.toNat % 16⟩
  else if b = 0xf0 then .ok ⟨3, 0x90, 0xbf, 0⟩
  else if 0xf1 ≤ b ∧ b ≤ 0xf3 then .ok ⟨3, 0x80, 0xbf, b.toNat % 8⟩
  else if b = 0xf4 then .ok ⟨3, 0x80, 0x8f, 4⟩
  else .error replacement

/-- Decode with a character possibly begun. -/
def decodeFrom : Option Pending → List UInt8 → List Char
  | none, [] => []
  | some _, [] => [replacement]
  | none, b :: bs =>
    match start b with
    | .error c => c :: decodeFrom none bs
    | .ok p => decodeFrom (some p) bs
  | some p, b :: bs =>
    if p.lowest ≤ b ∧ b ≤ p.highest then
      let bits := p.bits * 64 + b.toNat % 64
      if p.missing ≤ 1 then Char.ofNat bits :: decodeFrom none bs
      else decodeFrom (some ⟨p.missing - 1, 0x80, 0xbf, bits⟩) bs
    else
      match start b with
      | .error c => replacement :: c :: decodeFrom none bs
      | .ok q => replacement :: decodeFrom (some q) bs

def decode (bytes : List UInt8) : String :=
  String.ofList (decodeFrom none bytes)

def encode (text : String) : List UInt8 := text.toList.flatMap String.utf8EncodeChar

end ClassCoupling.Text.Utf8
