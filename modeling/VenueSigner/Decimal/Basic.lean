import VenueSigner.Rounding
/-!
Decimal numbers: a sign, a mantissa of 96 bits and a count of fraction digits up to twenty-eight.
The count is part of the number, so `0.50` and `0.5` are two decimals of one value.
-/

namespace VenueSigner

/-- The number `± mantissa / 10 ^ scale`. Zero can carry a minus sign too, which its text shows and
its value does not. -/
structure Decimal where
  negative : Bool
  mantissa : Nat
  scale : Nat
  mantissa_lt : mantissa < 2 ^ 96
  scale_le : scale ≤ 28
deriving DecidableEq

namespace Decimal

def limit : Nat := 2 ^ 96

def maxScale : Nat := 28

def ofParts? (negative : Bool) (mantissa scale : Nat) : Option Decimal :=
  if h : mantissa < 2 ^ 96 ∧ scale ≤ 28 then
    some ⟨negative && mantissa != 0, mantissa, scale, h.1, h.2⟩
  else
    none

def zero : Decimal := ⟨false, 0, 0, by decide, by decide⟩

def isZero (d : Decimal) : Bool := d.mantissa = 0

def signed (d : Decimal) : Int :=
  if d.negative then -(d.mantissa : Int) else d.mantissa

def le (a b : Decimal) : Bool :=
  a.signed * 10 ^ b.scale ≤ b.signed * 10 ^ a.scale

def lt (a b : Decimal) : Bool :=
  !b.le a

def dropZeros (mantissa : Nat) : Nat → Nat × Nat
  | 0 => (mantissa, 0)
  | scale + 1 =>
    if mantissa % 10 = 0 then dropZeros (mantissa / 10) scale else (mantissa, scale + 1)

theorem dropZeros_snd_le (mantissa scale : Nat) : (dropZeros mantissa scale).2 ≤ scale := by
  induction scale generalizing mantissa with
  | zero => simp [dropZeros]
  | succ scale ih =>
    unfold dropZeros
    split
    · exact Nat.le_trans (ih _) (Nat.le_succ _)
    · exact Nat.le_refl _

def places (d : Decimal) : Nat :=
  (dropZeros d.mantissa d.scale).2

/-- The decimal rounded to at most `places` fraction digits; one that has no more stays as it is. A
negative number that becomes zero loses its sign, and a zero keeps the one it has. -/
def round (mode : Rounding.Mode) (d : Decimal) (places : Nat) : Decimal :=
  if h : d.scale ≤ places then d
  else
    let m := mode.apply d.negative d.mantissa (10 ^ (d.scale - places))
    ⟨d.negative && (m != 0 || d.isZero), m, places,
      by
        have pow : 10 ≤ 10 ^ (d.scale - places) :=
          Nat.le_self_pow (by omega) 10
        have bound := mode.apply_le d.negative d.mantissa (10 ^ (d.scale - places))
        have quotient : d.mantissa / 10 ^ (d.scale - places) ≤ d.mantissa / 10 :=
          Nat.div_le_div_left pow (by decide)
        have := d.mantissa_lt
        omega,
      by have := d.scale_le; omega⟩

def roundDown (d : Decimal) (places : Nat) : Decimal := d.round .down places

def roundUp (d : Decimal) (places : Nat) : Decimal := d.round .up places

def roundNearest (d : Decimal) (places : Nat) : Decimal := d.round .halfAway places

end Decimal

end VenueSigner
