import Mathlib.Data.Rat.Floor
import Mathlib.Tactic.FieldSimp
import Mathlib.Tactic.Linarith
import Mathlib.Tactic.Positivity
import Mathlib.Tactic.Ring
import VenueSigner.Decimal.Basic
/-!
The rational number that a decimal denotes, and what rounding and comparison do to it.
-/

namespace VenueSigner

namespace Rounding

/-- The integer nearest to a number, a half going away from zero. -/
def halfAway (x : ℚ) : ℤ :=
  if 0 ≤ x then ⌊x + 1 / 2⌋ else -⌊-x + 1 / 2⌋

def Mode.integer : Mode → ℚ → ℤ
  | .down, x => ⌊x⌋
  | .up, x => ⌈x⌉
  | .halfAway, x => Rounding.halfAway x

theorem halfAway_neg (x : ℚ) : halfAway (-x) = -halfAway x := by
  unfold halfAway
  obtain neg | zero | pos := lt_trichotomy x 0
  · rw [if_pos (by linarith), if_neg (by linarith), neg_neg]
  · subst zero
    norm_num
  · rw [if_neg (by linarith), if_pos (by linarith), neg_neg]

theorem halfAway_intCast (n : ℤ) : halfAway n = n := by
  have half (k : ℤ) : ⌊(k : ℚ) + 1 / 2⌋ = k := by
    rw [Int.floor_eq_iff]
    constructor <;> linarith
  unfold halfAway
  split
  · exact half n
  · rw [← Int.cast_neg, half, neg_neg]

theorem abs_sub_halfAway_le (x : ℚ) : |x - halfAway x| ≤ 1 / 2 := by
  have half (y : ℚ) : |y - ⌊y + 1 / 2⌋| ≤ 1 / 2 := by
    have low := Int.floor_le (y + 1 / 2)
    have high := Int.lt_floor_add_one (y + 1 / 2)
    rw [abs_le]
    constructor <;> linarith
  unfold halfAway
  split
  · exact half x
  · have mirrored := half (-x)
    rw [← abs_neg] at mirrored
    push_cast
    convert mirrored using 2
    ring

theorem Mode.integer_intCast (mode : Mode) (n : ℤ) : mode.integer n = n := by
  cases mode with
  | down => exact Int.floor_intCast n
  | up => exact Int.ceil_intCast n
  | halfAway => exact halfAway_intCast n

theorem quotient_bounds {den : ℕ} (num : ℕ) (pos : 0 < den) :
    (num : ℚ) / den = (num / den : ℕ) + ((num % den : ℕ) : ℚ) / den := by
  have whole : (num : ℚ) = den * (num / den : ℕ) + (num % den : ℕ) := by
    exact_mod_cast (Nat.div_add_mod num den).symm
  have nonzero : (den : ℚ) ≠ 0 := by positivity
  field_simp
  linarith

theorem remainder_bounds {den : ℕ} (num : ℕ) (pos : 0 < den) :
    (0 : ℚ) ≤ ((num % den : ℕ) : ℚ) / den ∧ ((num % den : ℕ) : ℚ) / den < 1 := by
  have positive : (0 : ℚ) < den := by exact_mod_cast pos
  refine ⟨by positivity, ?_⟩
  rw [div_lt_one positive]
  exact_mod_cast Nat.mod_lt num pos

theorem lt_half_iff {den : ℕ} (r : ℕ) (pos : 0 < den) : (r : ℚ) / den < 1 / 2 ↔ 2 * r < den := by
  have positive : (0 : ℚ) < den := by exact_mod_cast pos
  rw [div_lt_div_iff₀ positive (by norm_num), one_mul, mul_comm]
  exact_mod_cast Iff.rfl

theorem half_lt_iff {den : ℕ} (r : ℕ) (pos : 0 < den) : 1 / 2 < (r : ℚ) / den ↔ den < 2 * r := by
  have positive : (0 : ℚ) < den := by exact_mod_cast pos
  rw [div_lt_div_iff₀ (by norm_num) positive, one_mul, mul_comm (r : ℚ)]
  exact_mod_cast Iff.rfl

theorem divUp_eq_ceil {den : ℕ} (num : ℕ) (pos : 0 < den) :
    (divUp num den : ℤ) = ⌈(num : ℚ) / den⌉ := by
  have rest := (remainder_bounds num pos).2
  symm
  rw [Int.ceil_eq_iff, quotient_bounds num pos]
  unfold divUp
  generalize num / den = q
  generalize num % den = r at rest ⊢
  by_cases exact : r = 0
  · rw [if_pos exact, exact, Nat.cast_zero, zero_div]
    push_cast
    constructor <;> linarith
  · have some : (0 : ℚ) < r / den := by positivity
    rw [if_neg exact]
    push_cast
    constructor <;> linarith

theorem divHalfUp_eq_floor {den : ℕ} (num : ℕ) (pos : 0 < den) :
    (divHalfUp num den : ℤ) = ⌊(num : ℚ) / den + 1 / 2⌋ := by
  obtain ⟨lower, upper⟩ := remainder_bounds num pos
  symm
  rw [Int.floor_eq_iff, quotient_bounds num pos]
  unfold divHalfUp
  generalize num / den = q
  generalize num % den = r at lower upper ⊢
  by_cases half : den ≤ 2 * r
  · have high := not_lt.1 ((lt_half_iff r pos).not.2 (not_lt.2 half))
    rw [if_pos half]
    push_cast
    constructor <;> linarith
  · have low := (lt_half_iff r pos).2 (not_le.1 half)
    rw [if_neg half]
    push_cast
    constructor <;> linarith

def withSign (negative : Bool) (n : ℤ) : ℤ :=
  if negative then -n else n

theorem Mode.apply_eq_integer (mode : Mode) (negative : Bool) {den : ℕ} (num : ℕ) (pos : 0 < den) :
    withSign negative (mode.apply negative num den) =
      mode.integer ((withSign negative num : ℤ) / den) := by
  have floor : ⌊(num : ℚ) / den⌋ = (num / den : ℕ) := by
    rw [Rat.floor_natCast_div_natCast]
    rfl
  cases negative with
  | false =>
    simp only [withSign, Bool.false_eq_true, if_false, Int.cast_natCast]
    cases mode with
    | down => exact floor.symm
    | up => exact divUp_eq_ceil num pos
    | halfAway =>
      have nonneg : (0 : ℚ) ≤ num / den := by positivity
      rw [Mode.integer, Rounding.halfAway, if_pos nonneg]
      exact divHalfUp_eq_floor num pos
  | true =>
    simp only [withSign, if_true, Int.cast_neg, Int.cast_natCast, neg_div]
    cases mode with
    | down =>
      rw [Mode.integer, Int.floor_neg, ← divUp_eq_ceil num pos]
      rfl
    | up =>
      rw [Mode.integer, Int.ceil_neg, floor]
      rfl
    | halfAway =>
      have nonneg : (0 : ℚ) ≤ num / den := by positivity
      rw [Mode.integer, halfAway_neg, Rounding.halfAway, if_pos nonneg,
        ← divHalfUp_eq_floor num pos]
      rfl

end Rounding

namespace Decimal

open Rounding (Mode withSign)

/-- The number that a decimal denotes. -/
def toRat (d : Decimal) : ℚ :=
  d.signed / 10 ^ d.scale

theorem signed_eq (d : Decimal) : d.signed = withSign d.negative d.mantissa := rfl

theorem toRat_mul_pow (d : Decimal) : d.toRat * 10 ^ d.scale = d.signed := by
  rw [toRat, div_mul_cancel₀]
  positivity

theorem toRat_mul_pow_of_le {d : Decimal} {places : ℕ} (h : d.scale ≤ places) :
    d.toRat * 10 ^ places = ((d.signed * 10 ^ (places - d.scale) : ℤ) : ℚ) := by
  calc d.toRat * 10 ^ places
      = d.toRat * 10 ^ d.scale * 10 ^ (places - d.scale) := by
        rw [mul_assoc, ← pow_add, Nat.add_sub_cancel' h]
    _ = ((d.signed * 10 ^ (places - d.scale) : ℤ) : ℚ) := by
        rw [toRat_mul_pow]
        push_cast
        rfl

theorem toRat_of_isZero {d : Decimal} (h : d.isZero = true) : d.toRat = 0 := by
  have zero : d.mantissa = 0 := by simpa [isZero] using h
  rw [toRat, signed_eq, withSign, zero]
  simp

theorem toRat_zero : zero.toRat = 0 :=
  toRat_of_isZero rfl

theorem abs_toRat (d : Decimal) : |d.toRat| = d.mantissa / 10 ^ d.scale := by
  have value : |(d.signed : ℚ)| = d.mantissa := by
    rw [signed_eq, withSign]
    split <;> simp
  rw [toRat, abs_div, value, abs_of_pos]
  positivity

theorem mantissa_le {d : Decimal} {places : ℕ} (h : d.scale ≤ places) :
    (d.mantissa : ℚ) ≤ |d.toRat| * 10 ^ places := by
  have more : (1 : ℚ) ≤ 10 ^ (places - d.scale) := one_le_pow₀ (by norm_num)
  have power : (10 : ℚ) ^ places = 10 ^ d.scale * 10 ^ (places - d.scale) := by
    rw [← pow_add, Nat.add_sub_cancel' h]
  have nonzero : (10 : ℚ) ^ d.scale ≠ 0 := by positivity
  rw [abs_toRat, power, ← mul_assoc, div_mul_cancel₀ _ nonzero]
  exact le_mul_of_one_le_right (Nat.cast_nonneg _) more

theorem le_iff (a b : Decimal) : a.le b = true ↔ a.toRat ≤ b.toRat := by
  have posA : (0 : ℚ) < 10 ^ a.scale := by positivity
  have posB : (0 : ℚ) < 10 ^ b.scale := by positivity
  rw [le, decide_eq_true_iff, toRat, toRat, div_le_div_iff₀ posA posB]
  exact_mod_cast Iff.rfl

theorem scale_round_le (mode : Mode) (d : Decimal) (places : ℕ) :
    (d.round mode places).scale ≤ places := by
  unfold round
  split
  · assumption
  · exact Nat.le_refl places

/-- Rounding to some places rounds the multiple by that power of ten to an integer. -/
theorem toRat_round (mode : Mode) (d : Decimal) (places : ℕ) :
    (d.round mode places).toRat * 10 ^ places = mode.integer (d.toRat * 10 ^ places) := by
  by_cases fits : d.scale ≤ places
  · rw [round, dif_pos fits, toRat_mul_pow_of_le fits, Mode.integer_intCast]
  · have split : d.toRat * 10 ^ places = (d.signed : ℚ) / (10 ^ (d.scale - places) : ℕ) := by
      rw [toRat, div_mul_eq_mul_div, div_eq_div_iff (by positivity) (by positivity)]
      push_cast
      rw [mul_assoc, ← pow_add, Nat.add_sub_cancel' (by omega : places ≤ d.scale)]
    have sign (m : ℕ) : withSign (d.negative && (m != 0 || d.isZero)) m =
        withSign d.negative m := by
      cases m with
      | zero => cases d.negative <;> cases d.isZero <;> rfl
      | succ m => cases d.negative <;> rfl
    rw [split, signed_eq, ← Mode.apply_eq_integer mode d.negative d.mantissa (by positivity),
      ← sign, round, dif_neg fits, toRat_mul_pow]
    rfl

theorem toRat_roundDown (d : Decimal) (places : ℕ) :
    (d.roundDown places).toRat * 10 ^ places = ⌊d.toRat * 10 ^ places⌋ :=
  toRat_round .down d places

theorem toRat_roundNearest (d : Decimal) (places : ℕ) :
    (d.roundNearest places).toRat * 10 ^ places = Rounding.halfAway (d.toRat * 10 ^ places) :=
  toRat_round .halfAway d places

end Decimal

end VenueSigner
