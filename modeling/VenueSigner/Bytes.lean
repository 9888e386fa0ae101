import VenueSigner.Positional
/-!
Byte strings: big-endian numbers in them, their shortest form, the bytes of a text in UTF-8, and
byte strings whose length is part of the type.
-/

namespace VenueSigner

abbrev Bytes := List UInt8

namespace Bytes

def toNat (b : Bytes) : Nat :=
  @Positional.value 256 (b.map UInt8.toFin)

theorem toNat_eq_foldl (b : Bytes) : toNat b = b.foldl (fun n x => n * 256 + x.toNat) 0 := by
  rw [toNat, Positional.value, List.foldl_map]
  rfl

def ofNat : Nat → Nat → Bytes
  | 0, _ => []
  | width + 1, n => ofNat width (n / 256) ++ [UInt8.ofNat n]

@[simp] theorem length_ofNat (width n : Nat) : (ofNat width n).length = width := by
  induction width generalizing n with
  | zero => rfl
  | succ width ih => simp [ofNat, ih]

@[simp] theorem toNat_nil : toNat [] = 0 := rfl

@[simp] theorem toNat_concat (b : Bytes) (x : UInt8) :
    toNat (b ++ [x]) = toNat b * 256 + x.toNat := by
  simp [toNat, Positional.value_concat]

theorem toNat_lt (b : Bytes) : toNat b < 256 ^ b.length := by
  have bound := @Positional.value_lt_pow 256 (b.map UInt8.toFin)
  rwa [List.length_map] at bound

/-- Writing a number and reading it back keeps as many bytes as were written. -/
theorem toNat_ofNat (width n : Nat) : toNat (ofNat width n) = n % 256 ^ width := by
  induction width generalizing n with
  | zero => simp [ofNat, Nat.mod_one]
  | succ width ih =>
    have split : n % 256 ^ (width + 1) = n % 256 + 256 * (n / 256 % 256 ^ width) := by
      rw [Nat.pow_succ, Nat.mul_comm, Nat.mod_mul]
    simp only [ofNat, toNat_concat, ih, UInt8.toNat_ofNat', split]
    omega

/-- The byte string without its leading zero bytes: the shortest one that denotes the same
number. -/
def trimZeros (b : Bytes) : Bytes :=
  b.dropWhile (· == 0)

def shortest (n : Nat) : Bytes :=
  if n = 0 then [] else shortest (n / 256) ++ [UInt8.ofNat n]

@[simp] theorem toNat_shortest (n : Nat) : toNat (shortest n) = n := by
  induction n using Nat.strongRecOn with
  | ind n ih =>
    rw [shortest]
    split
    · simp_all
    · rw [toNat_concat, ih (n / 256) (by omega), UInt8.toNat_ofNat']
      omega

def padLeft (width : Nat) (b : Bytes) : Bytes :=
  List.replicate (width - b.length) 0 ++ b

def padRight (width : Nat) (b : Bytes) : Bytes :=
  b ++ List.replicate (width - b.length) 0

def ofText (s : String) : Bytes :=
  s.toList.flatMap String.utf8EncodeChar

end Bytes

/-- A byte string of exactly `size` bytes. -/
structure FixedBytes (size : Nat) where
  bytes : Bytes
  length_eq : bytes.length = size
deriving DecidableEq

namespace FixedBytes

variable {size : Nat}

def ofBytes? (size : Nat) (b : Bytes) : Option (FixedBytes size) :=
  if h : b.length = size then some ⟨b, h⟩ else none

def ofNat (size n : Nat) : FixedBytes size :=
  ⟨Bytes.ofNat size n, Bytes.length_ofNat size n⟩

def toNat (b : FixedBytes size) : Nat :=
  b.bytes.toNat

@[simp] theorem ofBytes?_bytes (b : FixedBytes size) : ofBytes? size b.bytes = some b := by
  simp [ofBytes?, b.length_eq]

@[ext] theorem ext {a b : FixedBytes size} (h : a.bytes = b.bytes) : a = b := by
  cases a
  cases b
  simp_all

end FixedBytes

abbrev Address := FixedBytes 20

abbrev Word := FixedBytes 32

end VenueSigner
