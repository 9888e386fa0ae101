import VenueSigner.Error
import VenueSigner.Hash.Keccak.Sponge
/-!
Addresses as text: read from hexadecimal in any case, written in lowercase or with the capital
letters that serve as a checksum.
-/

namespace VenueSigner

def Hex.parse (s : String) : Result Bytes :=
  (Hex.decode s).mapError .notHex

namespace Address

def ofBytes (text : String) (b : Bytes) : Result Address :=
  match FixedBytes.ofBytes? 20 b with
  | some a => .ok a
  | none => .error (.addressLength text b.length)

def parse (s : String) : Result Address :=
  match Hex.decode s with
  | .ok b => ofBytes s b
  | .error _ => .error (.addressNotHex s)

def zero : Address := FixedBytes.ofNat 20 0

def lowercase (a : Address) : String :=
  Hex.encodePrefixed a.bytes

def nibbles (b : Bytes) : List Nat :=
  b.flatMap fun x => [x.toNat / 16, x.toNat % 16]

def checkedDigit (c : Char) (nibble : Nat) : Char :=
  if 8 ≤ nibble then c.toUpper else c

/-- The address behind `0x`, each letter in upper case when the nibble at its place in the digest of
the lowercase digits is at least eight. -/
def checksum (a : Address) : String :=
  let digits := Hex.encodeChars a.bytes
  let digest := Keccak.digestText (String.ofList digits)
  String.ofList ('0' :: 'x' :: List.zipWith checkedDigit digits (nibbles digest.bytes))

def withChecksum (s : String) : Result String := do
  return (← parse s).checksum

def toWord (a : Address) : Word :=
  ⟨Bytes.padLeft 32 a.bytes, by simp [Bytes.padLeft, a.length_eq]⟩

end Address

namespace Uint256

def parseHex (s : String) : Result Uint256 := do
  let b ← Hex.parse s
  match Uint.ofNat? 256 b.toNat with
  | some n => return n
  | none => throw (.exceedsWord s)

/-- The number that a text denotes, in hexadecimal behind `0x` or else in decimal, blanks at its
ends aside. -/
def parse (s : String) : Result Uint256 :=
  let t := Blank.trim s
  if Hex.isMarked t then parseHex t
  else
    match Digits.natural? t.toList with
    | none => .error (.notDecimal s)
    | some n =>
      match Uint.ofNat? 256 n with
      | some n => .ok n
      | none => .error (.exceedsWord t)

def text (n : Uint256) : String := Digits.text n.val

end Uint256

end VenueSigner
