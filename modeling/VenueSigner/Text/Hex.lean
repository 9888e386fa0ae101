import VenueSigner.Bytes
/-!
Hexadecimal text: bytes written in lowercase digits, and read back with an optional prefix, in
either case, an odd count of digits standing for one more zero in front.
-/

namespace VenueSigner.Hex

def digitChar (n : Fin 16) : Char :=
  if n.val < 10 then Char.ofNat (48 + n.val) else Char.ofNat (87 + n.val)

def digitValue? (b : UInt8) : Option Nat :=
  if 48 ≤ b.toNat ∧ b.toNat ≤ 57 then some (b.toNat - 48)
  else if 97 ≤ b.toNat ∧ b.toNat ≤ 102 then some (b.toNat - 87)
  else if 65 ≤ b.toNat ∧ b.toNat ≤ 70 then some (b.toNat - 55)
  else none

def byteChars (b : UInt8) : List Char :=
  [digitChar (Fin.ofNat 16 (b.toNat / 16)), digitChar (Fin.ofNat 16 b.toNat)]

def encodeChars (b : Bytes) : List Char :=
  b.flatMap byteChars

def encode (b : Bytes) : String :=
  String.ofList (encodeChars b)

def encodePrefixed (b : Bytes) : String :=
  String.ofList ('0' :: 'x' :: encodeChars b)

/-- A byte that is no digit, and its offset among the digits. -/
structure BadDigit where
  byte : UInt8
  position : Nat
deriving DecidableEq

def digitAt (position : Nat) (b : UInt8) : Except BadDigit Nat :=
  match digitValue? b with
  | some n => .ok n
  | none => .error ⟨b, position⟩

def decodePairs (position : Nat) : Bytes → Except BadDigit Bytes
  | high :: low :: rest => do
    let h ← digitAt position high
    let l ← digitAt (position + 1) low
    let tail ← decodePairs (position + 2) rest
    return UInt8.ofNat (h * 16 + l) :: tail
  | _ => .ok []

/-- Reads digits without a prefix; a zero is put in front of an odd count of bytes. -/
def decodeDigits (digits : Bytes) : Except BadDigit Bytes :=
  decodePairs 0 (if digits.length % 2 = 1 then 48 :: digits else digits)

def dropMarkChars : List Char → List Char
  | '0' :: 'x' :: rest => rest
  | '0' :: 'X' :: rest => rest
  | s => s

def dropMark (s : String) : String :=
  String.ofList (dropMarkChars s.toList)

def isMarked (s : String) : Bool :=
  match s.toList with
  | '0' :: 'x' :: _ => true
  | '0' :: 'X' :: _ => true
  | _ => false

def decode (s : String) : Except BadDigit Bytes :=
  decodeDigits (Bytes.ofText (dropMark s))

end VenueSigner.Hex
