import LayeredConfig.Number.Integer

/-!
# Base 64

Reads bytes from text with six bits in each character. Characters outside the alphabet are skipped.
Two characters or more and the padding that completes four end the data.
-/

namespace LayeredConfig.Base64

inductive Problem where
  | incorrectPadding
  /-- One character of the last four is too few for a byte. -/
  | loneCharacter (count : Nat)
  deriving DecidableEq, Repr

def Problem.message : Problem → String
  | .incorrectPadding => "Incorrect padding"
  | .loneCharacter n =>
    "Invalid base64-encoded string: number of data characters (" ++ Integer.text n ++
      ") cannot be 1 more than a multiple of 4"

def value? (c : Char) : Option Nat :=
  if 'A' ≤ c && c ≤ 'Z' then some (c.toNat - 'A'.toNat)
  else if 'a' ≤ c && c ≤ 'z' then some (c.toNat - 'a'.toNat + 26)
  else if '0' ≤ c && c ≤ '9' then some (c.toNat - '0'.toNat + 52)
  else if c = '+' then some 62
  else if c = '/' then some 63
  else none

/-- What has been read: the bytes in reverse, the characters of an incomplete four, the bits of the
last one that no byte holds yet, and the padding behind it. -/
structure Progress where
  bytes : List UInt8 := []
  position : Nat := 0
  bits : Nat := 0
  pads : Nat := 0

def Progress.add (p : Progress) (v : Nat) : Progress :=
  match p.position with
  | 0 => ⟨p.bytes, 1, v, 0⟩
  | 1 => ⟨UInt8.ofNat (p.bits * 4 + v / 16) :: p.bytes, 2, v % 16, 0⟩
  | 2 => ⟨UInt8.ofNat (p.bits * 16 + v / 4) :: p.bytes, 3, v % 4, 0⟩
  | _ => ⟨UInt8.ofNat (p.bits * 64 + v) :: p.bytes, 0, 0, 0⟩

def decodeFrom (p : Progress) : List Char → Except Problem (List UInt8)
  | [] =>
    if p.position = 0 then .ok p.bytes.reverse
    else if p.position = 1 then .error (.loneCharacter (p.bytes.length / 3 * 4 + 1))
    else .error .incorrectPadding
  | c :: rest =>
    if c = '=' then
      if p.position < 2 then decodeFrom p rest
      else if 4 ≤ p.position + p.pads + 1 then .ok p.bytes.reverse
      else decodeFrom { p with pads := p.pads + 1 } rest
    else match value? c with
      | some v => decodeFrom (p.add v) rest
      | none => decodeFrom p rest

def decode (cs : List Char) : Except Problem (List UInt8) := decodeFrom {} cs

end LayeredConfig.Base64
