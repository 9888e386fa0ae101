import VenueSigner.Curve.Secp256k1
import VenueSigner.Hash.Sha256
import VenueSigner.Text.Hex
/-!
Signatures on secp256k1 from which the public key can be recovered, with one-time numbers that
follow from the key and the digest, and the lower of the two values that `s` can have.
-/

namespace VenueSigner

/-- A secret key: a number between 1 and the order of the base point. -/
structure SecretKey where
  val : Nat
  pos : 0 < val
  lt_order : val < Secp256k1.order

/-- A signature: two numbers, and whether the one-time point has an odd second coordinate. -/
structure Signature where
  r : Word
  s : Word
  odd : Bool
deriving DecidableEq

namespace Signature

def recoveryId (s : Signature) : Nat := s.odd.toNat

def bytes (s : Signature) : Bytes :=
  s.r.bytes ++ s.s.bytes ++ [UInt8.ofNat (27 + s.recoveryId)]

def text (s : Signature) : String :=
  Hex.encodePrefixed s.bytes

end Signature

namespace SecretKey

def ofNat? (n : Nat) : Option SecretKey :=
  if h : 0 < n ∧ n < Secp256k1.order then some ⟨n, h.1, h.2⟩ else none

def publicBytes (k : SecretKey) : Bytes :=
  let (x, y) := Secp256k1.baseMultiple k.val
  Bytes.ofNat 32 x ++ Bytes.ofNat 32 y

structure Generator where
  key : Bytes
  value : Bytes

namespace Generator

def mix (g : Generator) (mark : UInt8) (data : Bytes) : Generator :=
  let key := (Hmac.digest g.key (g.value ++ mark :: data)).bytes
  ⟨key, (Hmac.digest key g.value).bytes⟩

/-- The generator for a key and a digest, which is taken as it is. -/
def start (k : SecretKey) (digest : Word) : Generator :=
  let data := Bytes.ofNat 32 k.val ++ digest.bytes
  ((Generator.mk (List.replicate 32 0) (List.replicate 32 1)).mix 0 data).mix 1 data

def next? (g : Generator) : Nat → Option SecretKey
  | 0 => none
  | fuel + 1 =>
    let value := (Hmac.digest g.key g.value).bytes
    match ofNat? value.toNat with
    | some k => some k
    | none => (Generator.mix ⟨g.key, value⟩ 0 []).next? fuel

end Generator

/-- How many one-time numbers are tried; each misses with a chance of one in `2 ^ 127`. -/
def maxTries : Nat := 64

/-- The signature of a digest with a one-time number; there is none if one of its numbers is
zero. -/
def signWith? (k nonce : SecretKey) (digest : Nat) : Option Signature :=
  let (x, y) := Secp256k1.baseMultiple nonce.val
  let r := x % Secp256k1.order
  let inverse := Secp256k1.inverseMod Secp256k1.order nonce.val
  let s := inverse * (digest + r * k.val) % Secp256k1.order
  if r = 0 ∨ s = 0 then none
  else
    let high := Secp256k1.order / 2 < s
    some
      { r := FixedBytes.ofNat 32 r
        s := FixedBytes.ofNat 32 (if high then Secp256k1.order - s else s)
        odd := (y % 2 == 1) != high }

/-- The signature of a digest, whose one-time number follows from the digest before it is
reduced. -/
def sign? (k : SecretKey) (digest : Word) : Option Signature := do
  let nonce ← (Generator.start k digest).next? maxTries
  k.signWith? nonce (digest.toNat % Secp256k1.order)

end SecretKey

end VenueSigner
