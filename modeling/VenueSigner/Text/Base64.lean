import VenueSigner.Bytes
/-!
Base64: three bytes as four symbols of an alphabet, the last group filled up with `=`. Reading
reports the first symbol that cannot stand where it does.
-/

namespace VenueSigner.Base64

structure Alphabet where
  symbol62 : UInt8
  symbol63 : UInt8

def standard : Alphabet := ⟨43, 47⟩

def urlSafe : Alphabet := ⟨45, 95⟩

def filler : UInt8 := 61

def symbol (alphabet : Alphabet) (n : Nat) : UInt8 :=
  if n < 26 then UInt8.ofNat (65 + n)
  else if n < 52 then UInt8.ofNat (71 + n)
  else if n < 62 then UInt8.ofNat (n - 4)
  else if n = 62 then alphabet.symbol62
  else alphabet.symbol63

def sextet? (alphabet : Alphabet) (b : UInt8) : Option Nat :=
  let n := b.toNat
  if 65 ≤ n ∧ n ≤ 90 then some (n - 65)
  else if 97 ≤ n ∧ n ≤ 122 then some (n - 71)
  else if 48 ≤ n ∧ n ≤ 57 then some (n + 4)
  else if b = alphabet.symbol62 then some 62
  else if b = alphabet.symbol63 then some 63
  else none

def encode (alphabet : Alphabet) : Bytes → Bytes
  | [] => []
  | [a] =>
    [symbol alphabet (a.toNat / 4), symbol alphabet (a.toNat % 4 * 16), filler, filler]
  | [a, b] =>
    [symbol alphabet (a.toNat / 4), symbol alphabet (a.toNat % 4 * 16 + b.toNat / 16),
      symbol alphabet (b.toNat % 16 * 4), filler]
  | a :: b :: c :: rest =>
    symbol alphabet (a.toNat / 4) :: symbol alphabet (a.toNat % 4 * 16 + b.toNat / 16) ::
      symbol alphabet (b.toNat % 16 * 4 + c.toNat / 64) :: symbol alphabet (c.toNat % 64) ::
      encode alphabet rest

def encodeText (alphabet : Alphabet) (b : Bytes) : String :=
  String.ofList ((encode alphabet b).map fun x => Char.ofNat x.toNat)

/-- Why a text is not base64: a symbol at an offset does not belong there, or the last symbol has
bits that no byte takes. -/
inductive Problem
  | symbol (b : UInt8) (offset : Nat)
  | lastSymbol (b : UInt8) (offset : Nat)
deriving DecidableEq

def sextetAt (alphabet : Alphabet) (offset : Nat) (b : UInt8) : Except Problem Nat :=
  match sextet? alphabet b with
  | some n => .ok n
  | none => .error (.symbol b offset)

def decodeThree (alphabet : Alphabet) (offset : Nat) (a b c : UInt8) : Except Problem Bytes := do
  let x ← sextetAt alphabet offset a
  let y ← sextetAt alphabet (offset + 1) b
  let z ← sextetAt alphabet (offset + 2) c
  if z % 4 = 0 then return [UInt8.ofNat (x * 4 + y / 16), UInt8.ofNat (y % 16 * 16 + z / 4)]
  else throw (.lastSymbol c (offset + 2))

def decodeTwo (alphabet : Alphabet) (offset : Nat) (a b : UInt8) : Except Problem Bytes := do
  let x ← sextetAt alphabet offset a
  let y ← sextetAt alphabet (offset + 1) b
  if y % 16 = 0 then return [UInt8.ofNat (x * 4 + y / 16)]
  else throw (.lastSymbol b (offset + 1))

def decodeFour (alphabet : Alphabet) (offset : Nat) (a b c d : UInt8) : Except Problem Bytes := do
  let x ← sextetAt alphabet offset a
  let y ← sextetAt alphabet (offset + 1) b
  let z ← sextetAt alphabet (offset + 2) c
  let w ← sextetAt alphabet (offset + 3) d
  return [UInt8.ofNat (x * 4 + y / 16), UInt8.ofNat (y % 16 * 16 + z / 4),
    UInt8.ofNat (z % 4 * 64 + w)]

/-- The bytes in the last four symbols, where fillers may take the last two places. -/
def decodeLast (alphabet : Alphabet) (offset : Nat) (a b c d : UInt8) : Except Problem Bytes := do
  let _ ← sextetAt alphabet offset a
  let _ ← sextetAt alphabet (offset + 1) b
  if c = filler then
    if d = filler then decodeTwo alphabet offset a b
    else throw (.symbol c (offset + 2))
  else if d = filler then decodeThree alphabet offset a b c
  else decodeFour alphabet offset a b c d

def decodeFrom (alphabet : Alphabet) (offset : Nat) : Bytes → Except Problem Bytes
  | [] => .ok []
  | [a, b, c, d] => decodeLast alphabet offset a b c d
  | a :: b :: c :: d :: rest => do
    let front ← decodeFour alphabet offset a b c d
    let back ← decodeFrom alphabet (offset + 4) rest
    return front ++ back
  | b :: _ => .error (.symbol b offset)

def decode (alphabet : Alphabet) (text : Bytes) : Except Problem Bytes :=
  decodeFrom alphabet 0 text

end VenueSigner.Base64
