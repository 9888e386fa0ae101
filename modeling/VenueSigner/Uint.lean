import VenueSigner.Bytes
/-!
Unsigned integers of a fixed number of bits, each with the proof that it fits.
-/

namespace VenueSigner

structure Uint (bits : Nat) where
  val : Nat
  val_lt : val < 2 ^ bits
deriving DecidableEq

namespace Uint

variable {bits : Nat}

def ofNat? (bits n : Nat) : Option (Uint bits) :=
  if h : n < 2 ^ bits then some ⟨n, h⟩ else none

def zero (bits : Nat) : Uint bits :=
  ⟨0, Nat.two_pow_pos bits⟩

theorem eq_of_val_eq {u v : Uint bits} (h : u.val = v.val) : u = v := by
  cases u
  cases v
  exact mk.injEq .. ▸ h

@[simp] theorem ofNat?_val (u : Uint bits) : ofNat? bits u.val = some u := by
  simp [ofNat?, u.val_lt]

theorem ofNat?_of_lt {n : Nat} (h : n < 2 ^ bits) : ofNat? bits n = some ⟨n, h⟩ :=
  dif_pos h

theorem ofNat?_eq_none_iff {n : Nat} : ofNat? bits n = none ↔ 2 ^ bits ≤ n := by
  simp [ofNat?]

theorem ofNat?_eq_some_iff {n : Nat} {u : Uint bits} : ofNat? bits n = some u ↔ n = u.val := by
  constructor
  · intro h
    unfold ofNat? at h
    split at h
    · exact congrArg val (Option.some.inj h)
    · contradiction
  · rintro rfl
    exact ofNat?_val u

def toWord (u : Uint bits) : Word :=
  FixedBytes.ofNat 32 u.val

end Uint

abbrev Uint256 := Uint 256

def FixedBytes.toUint256 (w : Word) : Uint256 :=
  ⟨w.toNat, by
    have bound := Bytes.toNat_lt w.bytes
    rw [w.length_eq] at bound
    exact Nat.lt_of_lt_of_eq bound (by decide)⟩

abbrev Uint64 := Uint 64

end VenueSigner
