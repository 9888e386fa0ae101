import VenueSigner.Uint
/-!
Recursive length prefixes: byte strings and lists of encoded items behind a header that tells their
length.
-/

namespace VenueSigner.Rlp

def textOffset : Nat := 0x80

def listOffset : Nat := 0xC0

/-- The header of a payload: one byte up to a length of 55, else the count of length bytes and
these. -/
def header (offset length : Nat) : Bytes :=
  if length < 56 then [UInt8.ofNat (offset + length)]
  else
    let digits := Bytes.shortest length
    UInt8.ofNat (offset + 55 + digits.length) :: digits

def encodeBytes (b : Bytes) : Bytes :=
  match b with
  | [x] => if x.toNat < textOffset then [x] else header textOffset 1 ++ [x]
  | b => header textOffset b.length ++ b

def encodeList (items : List Bytes) : Bytes :=
  let payload := items.flatten
  header listOffset payload.length ++ payload

/-- A number in big-endian bytes, its leading zeros dropped. -/
def encodeNumber (b : Bytes) : Bytes :=
  encodeBytes b.trimZeros

def encodeUint {bits : Nat} (n : Uint bits) : Bytes :=
  encodeNumber (Bytes.ofNat (bits / 8) n.val)

/-- A byte string, or a list of items. -/
inductive Item
  | bytes (b : Bytes)
  | list (items : List Item)

namespace Item

mutual

def encode : Item → Bytes
  | bytes b => encodeBytes b
  | list items => encodeList (encodeAll items)

def encodeAll : List Item → List Bytes
  | [] => []
  | i :: rest => encode i :: encodeAll rest

end

end Item

end VenueSigner.Rlp
