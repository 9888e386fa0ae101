/-!
The permutation Keccak-f[1600]: twenty-four rounds on twenty-five lanes of 64 bits, where the lane
at column `x` and row `y` has the index `x + 5 * y`.
-/

namespace VenueSigner.Keccak

/-- The state: twenty-five lanes. -/
abbrev Lanes := Vector UInt64 25

namespace Lanes

def zero : Lanes := Vector.replicate 25 0

def front (s : Lanes) : List UInt64 := [s[0], s[1], s[2], s[3]]

end Lanes

def rotateLeft (lane : UInt64) (bits : Nat) : UInt64 :=
  (lane <<< UInt64.ofNat bits) ||| (lane >>> UInt64.ofNat (64 - bits))

def roundConstants : List UInt64 := [
  0x0000000000000001, 0x0000000000008082, 0x800000000000808a, 0x8000000080008000,
  0x000000000000808b, 0x0000000080000001, 0x8000000080008081, 0x8000000000008009,
  0x000000000000008a, 0x0000000000000088, 0x0000000080008009, 0x000000008000000a,
  0x000000008000808b, 0x800000000000008b, 0x8000000000008089, 0x8000000000008003,
  0x8000000000008002, 0x8000000000000080, 0x000000000000800a, 0x800000008000000a,
  0x8000000080008081, 0x8000000000008080, 0x0000000080000001, 0x8000000080008008]

/-- The lanes that one lane after another moves into, starting from lane 1, each with the number of
bits by which the moving lane is turned. -/
def moves : List (Fin 25 × Nat) := [
  (10, 1), (7, 3), (11, 6), (17, 10), (18, 15), (3, 21), (5, 28), (16, 36), (8, 45), (21, 55),
  (24, 2), (4, 14), (15, 27), (23, 41), (19, 56), (13, 8), (12, 25), (2, 43), (20, 62), (14, 18),
  (22, 39), (9, 61), (6, 20), (1, 44)]

def columnParity (s : Lanes) (x : Fin 5) : UInt64 :=
  s[x.val] ^^^ s[x.val + 5] ^^^ s[x.val + 10] ^^^ s[x.val + 15] ^^^ s[x.val + 20]

/-- Adds to each lane the column on its left and the turned column on its right. -/
def theta (s : Lanes) : Lanes :=
  let parity : Vector UInt64 5 := Vector.ofFn (columnParity s)
  let mix : Vector UInt64 5 :=
    Vector.ofFn fun x => parity[x + 4] ^^^ rotateLeft parity[x + 1] 1
  Vector.ofFn fun i => s[i] ^^^ mix[Fin.ofNat 5 i.val]

/-- Puts the turned moving lane down at each place of a walk and takes up the lane found there. -/
def carryAlong : List (Fin 25 × Nat) → UInt64 → Lanes → Lanes
  | [], _, s => s
  | (place, bits) :: rest, moving, s =>
    carryAlong rest s[place] (s.set place.val (rotateLeft moving bits))

def rhoPi (s : Lanes) : Lanes :=
  carryAlong moves s[1] s

def rowLane (s : Lanes) (i : Fin 25) (right : Nat) : UInt64 :=
  s[5 * (i.val / 5) + (i.val + right) % 5]

/-- Combines each lane with the two to the right of it in its row. -/
def chi (s : Lanes) : Lanes :=
  Vector.ofFn fun i => s[i] ^^^ (~~~ rowLane s i 1 &&& rowLane s i 2)

def iota (constant : UInt64) (s : Lanes) : Lanes :=
  s.set 0 (s[0] ^^^ constant)

def round (s : Lanes) (constant : UInt64) : Lanes :=
  iota constant (chi (rhoPi (theta s)))

def permute (s : Lanes) : Lanes :=
  roundConstants.foldl round s

end VenueSigner.Keccak
