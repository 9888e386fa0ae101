import VenueSigner.Address
import VenueSigner.Json.Value
/-!
The atomic kinds of typed data, and the word that stands for a value of each.
-/

namespace VenueSigner.TypedData

open Json (Value)

/-- A kind that is not a struct. -/
inductive Kind
  | text
  | bytes
  | address
  | bool
  | uint (bits : Nat)
  | int (bits : Nat)
  | fixedBytes (size : Nat)
deriving DecidableEq

namespace Kind

/-- The width that stands behind `uint` or `int`: 256 when there is none, else a multiple of
eight. -/
def width? : List Char → Option Nat
  | [] => some 256
  | s => (Digits.signedNatural? s).filter fun n => 0 < n && n ≤ 256 && n % 8 == 0

def size? (s : List Char) : Option Nat :=
  (Digits.signedNatural? s).filter fun n => 1 ≤ n && n ≤ 32

def sizedOfChars? : List Char → Option Kind
  | 'u' :: 'i' :: 'n' :: 't' :: s => (width? s).map uint
  | 'i' :: 'n' :: 't' :: s => (width? s).map int
  | 'b' :: 'y' :: 't' :: 'e' :: 's' :: s => (size? s).map fixedBytes
  | _ => none

def ofName? (name : String) : Option Kind :=
  match name with
  | "string" => some text
  | "bytes" => some bytes
  | "address" => some address
  | "bool" => some bool
  | _ => sizedOfChars? name.toList

def hexText (name : String) : Value → Result String
  | .text s => .ok s
  | _ => .error (.unexpected name .hexText)

def natural (name : String) : Value → Result Nat
  | .number (.int (.ofNat n)) => .ok n
  | .number n => .error (.notNatural name (String.ofList n.literal.chars))
  | .text s => (Uint256.parse s).map (·.val)
  | _ => .error (.unexpected name .integer)

def encodeUint (name : String) (bits : Nat) (v : Value) : Result Word := do
  let n ← natural name v
  if n < 2 ^ bits then return FixedBytes.ofNat 32 n
  else throw (.exceedsKind (Digits.text n) name)

def numeral (name : String) : Value → Result String
  | .number (.int n) => .ok (Digits.intText n)
  | .text s => .ok (Blank.trim s)
  | _ => .error (.unexpected name .integer)

def looseNatural? (s : List Char) : Option Nat :=
  (Digits.ofChars? (s.filter (· != '_'))).map Positional.value

/-- The number of a sign, if there is one, and digits. -/
def looseInteger? : List Char → Option Int
  | '+' :: s => (looseNatural? s).map Int.ofNat
  | '-' :: s => (looseNatural? s).map fun n => -Int.ofNat n
  | s => (looseNatural? s).map Int.ofNat

def fitsInt (bits : Nat) (n : Int) : Bool :=
  -(2 ^ (bits - 1) : Int) ≤ n && n < 2 ^ (bits - 1)

def intWord (n : Int) : Word :=
  FixedBytes.ofNat 32 (n % 2 ^ 256).toNat

def encodeInt (name : String) (bits : Nat) (v : Value) : Result Word := do
  let s ← numeral name v
  match (looseInteger? s.toList).filter (fitsInt bits) with
  | some n => return intWord n
  | none => throw (.exceedsKind s name)

def leftWord (b : Bytes) : Word :=
  ⟨Bytes.padRight 32 (b.take 32), by
    simp only [Bytes.padRight, List.length_append, List.length_replicate, List.length_take]
    omega⟩

def encodeFixedBytes (name : String) (size : Nat) (v : Value) : Result Word := do
  let b ← Hex.parse (← hexText name v)
  if b.length ≤ size then return leftWord b
  else throw (.tooManyBytes name b.length size)

def encode (name : String) (v : Value) : Kind → Result Word
  | text =>
    match v with
    | .text s => .ok (Keccak.digestText s)
    | _ => .error (.unexpected name .text)
  | bytes => do return Keccak.digest (← Hex.parse (← hexText name v))
  | address => do return (← Address.parse (← hexText name v)).toWord
  | bool =>
    match v with
    | .bool b => .ok (FixedBytes.ofNat 32 b.toNat)
    | _ => .error (.unexpected name .boolean)
  | uint bits => encodeUint name bits v
  | int bits => encodeInt name bits v
  | fixedBytes size => encodeFixedBytes name size v

end Kind

end VenueSigner.TypedData
