import Mathlib.Data.Nat.Cast.Field
import Mathlib.Data.Nat.Cast.Order.Field
import VenueSigner.Decimal.Arithmetic
import VenueSigner.Proofs.DecimalExact
/-!
Quotients of decimals are exact, or the last digit of them is off by half a unit at most, and this
digit is the twenty-eighth of the fraction or the last one that there is room for.
-/

namespace VenueSigner

namespace Rounding

theorem abs_divHalfEven_sub_le {den : ℕ} (num : ℕ) (pos : 0 < den) :
    |(divHalfEven num den : ℚ) - num / den| ≤ 1 / 2 := by
  obtain ⟨lower, upper⟩ := remainder_bounds num pos
  rw [quotient_bounds num pos]
  unfold divHalfEven
  dsimp only
  generalize num / den = q
  generalize num % den = r at lower upper ⊢
  by_cases high : den < 2 * r ∨ (2 * r = den ∧ q % 2 = 1)
  · have half := not_lt.1 ((lt_half_iff r pos).not.2 (by omega))
    rw [if_pos high, abs_le]
    push_cast
    constructor <;> linarith
  · have half := not_lt.1 ((half_lt_iff r pos).not.2 (by omega))
    rw [if_neg high, abs_le]
    constructor <;> linarith

end Rounding

namespace Decimal

open Rounding (withSign divHalfEven)

/-- The first number is the second one, or differs from it by half a unit of some digit at most.
There is no room for another digit then, behind the point or in the mantissa. -/
def Rounds (d x : ℚ) : Prop :=
  ∃ places : ℕ, |d - x| * 10 ^ places ≤ 1 / 2 ∧
    (d = x ∨ places = maxScale ∨ (limit : ℚ) ≤ 10 * (|x| * 10 ^ places + 1))

theorem Rounds.refl (x : ℚ) : Rounds x x :=
  ⟨0, by norm_num, .inl rfl⟩

theorem Rounds.near {d x : ℚ} (h : Rounds d x) {places : ℕ} (few : places < maxScale)
    (fits : 10 * (|x| * 10 ^ places + 1) < limit) : |d - x| * 10 ^ (places + 1) ≤ 1 / 2 := by
  obtain ⟨most, near, room⟩ := h
  have behind : d = x ∨ places < most := by
    obtain same | last | full := room
    · exact .inl same
    · exact .inr (by omega)
    · right
      by_contra before
      have power : (10 : ℚ) ^ most ≤ 10 ^ places := pow_le_pow_right₀ (by norm_num) (by omega)
      have product := mul_le_mul_of_nonneg_left power (abs_nonneg x)
      linarith
  obtain same | later := behind
  · rw [same, sub_self, abs_zero, zero_mul]
    norm_num
  · have power : (10 : ℚ) ^ (places + 1) ≤ 10 ^ most := pow_le_pow_right₀ (by norm_num) later
    exact le_trans (mul_le_mul_of_nonneg_left power (abs_nonneg _)) near

theorem Rounds.withSign {d x : ℚ} (h : Rounds d x) (negative : Bool) :
    Rounds ((withSign negative 1 : ℤ) * d) ((withSign negative 1 : ℤ) * x) := by
  obtain ⟨places, near, room⟩ := h
  have unit : |((Rounding.withSign negative 1 : ℤ) : ℚ)| = 1 := by
    simpa using abs_withSign negative 1
  refine ⟨places, ?_, ?_⟩
  · rwa [← mul_sub, abs_mul, unit, one_mul]
  · rw [abs_mul, unit, one_mul]
    exact room.imp_left fun same => by rw [same]

def fraction (d : ℕ × ℕ) : ℚ :=
  d.1 / 10 ^ d.2

theorem fraction_div_pow {m scale count : ℕ} (fits : count ≤ scale) (zeros : 10 ^ count ∣ m) :
    fraction (m / 10 ^ count, scale - count) = fraction (m, scale) := by
  obtain ⟨kept, rfl⟩ := zeros
  have power : (10 : ℚ) ^ scale = 10 ^ count * 10 ^ (scale - count) := by
    rw [← pow_add, Nat.add_sub_cancel' fits]
  simp only [fraction]
  rw [Nat.mul_div_cancel_left _ (by positivity), power]
  push_cast
  rw [mul_div_mul_left _ _ (by positivity)]

theorem fraction_dropBlock (count : ℕ) (d : ℕ × ℕ) : fraction (dropBlock count d) = fraction d := by
  unfold dropBlock
  split
  · next zeros => exact fraction_div_pow zeros.1 (Nat.dvd_of_mod_eq_zero zeros.2)
  · rfl

theorem fraction_dropEights (m scale : ℕ) :
    fraction (dropEights m scale) = fraction (m, scale) := by
  fun_induction dropEights m scale with
  | case1 m scale zeros ih =>
    rw [ih]
    exact fraction_div_pow (Nat.le_add_left 8 scale) (Nat.dvd_of_mod_eq_zero zeros.2)
  | case2 => rfl
  | case3 => rfl

theorem fraction_dropBlocks (m scale : ℕ) :
    fraction (dropBlocks m scale) = fraction (m, scale) := by
  rw [dropBlocks, fraction_dropBlock, fraction_dropBlock, fraction_dropBlock, fraction_dropEights]

theorem toRat_of_ofDigits? {negative : Bool} {m scale : ℕ} {d : Decimal}
    (h : ofDigits? negative m scale = some d) :
    d.toRat = (withSign negative 1 : ℤ) * (m / 10 ^ scale) := by
  have same := fraction_dropBlocks m scale
  have parts : ofParts? negative (dropBlocks m scale).1 (dropBlocks m scale).2 = some d := h
  rw [toRat_of_ofParts? parts, ← mul_one ((dropBlocks m scale).1 : ℤ), withSign_mul]
  push_cast
  rw [mul_comm, mul_div_assoc]
  exact congrArg _ same

theorem of_room_eq_zero {m most : ℕ} (h : room m most = 0) : most = 0 ∨ limit ≤ m * 10 := by
  induction most with
  | zero => exact .inl rfl
  | succ n ih =>
    unfold room at h
    split at h
    · contradiction
    · next full =>
      cases ih h with
      | inl zero =>
        rw [zero] at full
        exact .inr (Nat.le_of_not_lt full)
      | inr large => exact .inr large

/-- Long division adds zeros to the numerator. It ends when nothing remains, when there is no place
left, or when the quotient has no room for more. -/
theorem longDivision?_spec {num den left : ℕ} {p : ℕ × ℕ}
    (h : longDivision? num den left = some p) :
    p.2 ≤ left ∧ p.1 = num * 10 ^ (left - p.2) ∧
      ((p.2 ≤ maxScale ∧ (den ∣ p.1 ∨ p.2 = 0 ∨ limit ≤ p.1 / den * 10)) ∨ limit ≤ p.1 / den) := by
  -- each block of zeros takes as many of the places that are left
  fun_induction longDivision? num den left with
  | case1 num left exact =>
    rw [Option.some.injEq] at h
    subst h
    have zeros : left - min left maxScale = left - maxScale := by omega
    refine ⟨Nat.min_le_left _ _, by rw [zeros], .inl ⟨Nat.min_le_right _ _, .inl ?_⟩⟩
    exact Dvd.dvd.mul_right (Nat.dvd_of_mod_eq_zero exact) _
  | case2 num left inexact block full few =>
    rw [Option.some.injEq] at h
    subst h
    refine ⟨Nat.le_refl left, by rw [Nat.sub_self, pow_zero, mul_one], .inl ⟨few, .inr ?_⟩⟩
    cases of_room_eq_zero full with
    | inl none => exact .inl (by omega)
    | inr large => exact .inr large
  | case3 num left inexact block full many => contradiction
  | case4 num left inexact block some large =>
    rw [Option.some.injEq] at h
    subst h
    have most : block ≤ min 9 left := room_le _ _
    exact ⟨Nat.sub_le _ _, by rw [Nat.sub_sub_self (by omega)], .inr large⟩
  | case5 num left inexact block some small ih =>
    obtain ⟨le, zeros, ends⟩ := ih h
    have most : block ≤ min 9 left := room_le _ _
    refine ⟨by omega, ?_, ends⟩
    rw [zeros, mul_assoc, ← pow_add]
    congr 2
    omega

theorem rounds_of_near {n places : ℕ} {x : ℚ} (near : |(n : ℚ) - x| ≤ 1 / 2)
    (room : (n : ℚ) = x ∨ places = maxScale ∨ (limit : ℚ) ≤ 10 * (|x| + 1)) :
    Rounds (n / 10 ^ places) (x / 10 ^ places) := by
  have power : (0 : ℚ) < 10 ^ places := by positivity
  refine ⟨places, ?_, ?_⟩
  · rwa [← sub_div, abs_div, abs_of_pos power, div_mul_cancel₀ _ power.ne']
  · rw [abs_div, abs_of_pos power, div_mul_cancel₀ _ power.ne']
    exact room.imp_left fun same => by rw [same]

theorem div_mul_pow_div (x : ℚ) {l : ℕ} (le : l ≤ maxScale) :
    x * 10 ^ l / 10 ^ maxScale = x / 10 ^ (maxScale - l) := by
  have power : (10 : ℚ) ^ maxScale = 10 ^ (maxScale - l) * 10 ^ l := by
    rw [← pow_add, Nat.sub_add_cancel le]
  rw [power, mul_div_mul_right _ _ (by positivity)]

theorem shifted_div (num den : ℕ) {left l : ℕ} (le : l ≤ left) :
    ((num * 10 ^ (left - l) : ℕ) : ℚ) / den * 10 ^ l = num / den * 10 ^ left := by
  have power : (10 : ℚ) ^ left = 10 ^ (left - l) * 10 ^ l := by
    rw [← pow_add, Nat.sub_add_cancel le]
  rw [power]
  push_cast
  ring

theorem rounds_of_nearest? {negative : Bool} {num den left : ℕ} {d : Decimal} (pos : 0 < den)
    (h : nearest? negative num den left = some d) :
    Rounds d.toRat ((withSign negative 1 : ℤ) * (num / den * 10 ^ left / 10 ^ maxScale)) := by
  obtain ⟨⟨n, l⟩, divided, h⟩ := Option.bind_eq_some_iff.1 h
  obtain ⟨le, zeros, ends⟩ := longDivision?_spec divided
  dsimp only at le zeros ends h
  have near := Rounding.abs_divHalfEven_sub_le n pos
  rw [← shifted_div num den le, ← zeros]
  by_cases fits : divHalfEven n den < limit
  -- the quotient is rounded where long division ended
  · rw [if_pos fits] at h
    have whole := Rounding.le_divHalfEven n den
    obtain ⟨few, ends⟩ := ends.resolve_right (by omega)
    rw [toRat_of_ofDigits? h, div_mul_pow_div _ few]
    refine (rounds_of_near near ?_).withSign negative
    obtain divides | none | large := ends
    · left
      rw [divHalfEven_of_dvd pos divides]
      exact Nat.cast_div divides (by positivity)
    · right; left
      rw [none, Nat.sub_zero]
    · right; right
      have cast : (limit : ℚ) ≤ ((n / den : ℕ) : ℚ) * 10 := by exact_mod_cast large
      have quotient : ((n / den : ℕ) : ℚ) ≤ |(n : ℚ) / den| :=
        le_trans Nat.cast_div_le (le_abs_self _)
      linarith
  -- the quotient fills the mantissa and more: it is rounded again, from the start, a digit before
  · rw [if_neg fits] at h
    obtain ⟨few, h⟩ | ⟨_, none⟩ := ite_eq_iff.1 h
    · have tenth : (n : ℚ) / den * 10 ^ l / 10 ^ maxScale =
          n / (10 * den : ℕ) / 10 ^ (maxScale - l - 1) := by
        rw [Nat.sub_sub, ← div_mul_pow_div _ (by omega : l + 1 ≤ maxScale), pow_succ]
        push_cast
        field_simp
      rw [toRat_of_ofDigits? h, tenth]
      refine (rounds_of_near (Rounding.abs_divHalfEven_sub_le n (by omega)) ?_).withSign negative
      right; right
      have cast : (limit : ℚ) ≤ divHalfEven n den := by exact_mod_cast not_lt.1 fits
      have whole : (n : ℚ) / den = 10 * (n / (10 * den : ℕ)) := by
        push_cast
        field_simp
      have size := le_abs_self ((n : ℚ) / (10 * den : ℕ))
      rw [abs_le] at near
      linarith
    · cases none

theorem div_of_sizes (a b : Decimal) :
    (a.mantissa : ℚ) / 10 ^ a.scale / (b.mantissa / 10 ^ b.scale) =
      a.mantissa / b.mantissa * 10 ^ b.scale / 10 ^ a.scale := by
  rw [div_div_div_eq, mul_comm (10 ^ a.scale : ℚ), mul_div_mul_comm, mul_div_assoc]

theorem abs_toRat_div_toRat (a b : Decimal) :
    |a.toRat / b.toRat| = a.mantissa / b.mantissa * 10 ^ b.scale / 10 ^ a.scale := by
  rw [abs_div, abs_toRat, abs_toRat, div_of_sizes]

theorem toRat_div_toRat (a b : Decimal) :
    a.toRat / b.toRat = (withSign (a.negative != b.negative) 1 : ℤ) *
      (a.mantissa / b.mantissa * 10 ^ b.scale / 10 ^ a.scale) := by
  rw [← div_of_sizes, toRat, toRat, signed_eq, signed_eq]
  cases a.negative <;> cases b.negative <;> simp [withSign, neg_div, div_neg]

theorem pow_sub_div_pow_sub (m n : ℕ) :
    (10 : ℚ) ^ (n - m) / 10 ^ (m - n) = 10 ^ n / 10 ^ m := by
  rw [div_eq_div_iff (by positivity) (by positivity), ← pow_add, ← pow_add]
  congr 1
  omega

theorem pow_left_div (a b : Decimal) :
    (10 : ℚ) ^ (maxScale + b.scale - a.scale) / 10 ^ maxScale = 10 ^ b.scale / 10 ^ a.scale := by
  have most : a.scale ≤ maxScale := a.scale_le
  rw [div_eq_div_iff (by positivity) (by positivity), ← pow_add, ← pow_add]
  congr 1
  omega

/-- A quotient of decimals is exact, or the nearest decimal for which there is room. -/
theorem div?_rounds {a b d : Decimal} (h : a.div? b = some d) :
    Rounds d.toRat (a.toRat / b.toRat) := by
  unfold div? at h
  by_cases zeroB : b.isZero = true
  · rw [if_pos zeroB] at h
    cases h
  rw [if_neg zeroB] at h
  by_cases zeroA : a.isZero = true
  · rw [if_pos zeroA, Option.some.injEq] at h
    rw [← h, toRat_of_isZero zeroA, zero_div, toRat_zero]
    exact .refl 0
  rw [if_neg zeroA] at h
  dsimp only at h
  have pos : 0 < b.mantissa := by
    have nonzero : b.mantissa ≠ 0 := by simpa [isZero] using zeroB
    omega
  rw [toRat_div_toRat]
  by_cases divides : a.mantissa % b.mantissa = 0
  · rw [if_pos divides] at h
    have whole : ((a.mantissa / b.mantissa : ℕ) : ℚ) = a.mantissa / b.mantissa :=
      Nat.cast_div (Nat.dvd_of_mod_eq_zero divides) (by positivity)
    have scales := pow_sub_div_pow_sub a.scale b.scale
    have exact : d.toRat = (withSign (a.negative != b.negative) 1 : ℤ) *
        (a.mantissa / b.mantissa * 10 ^ b.scale / 10 ^ a.scale) := by
      rw [toRat_of_ofParts? h, ← mul_one (Nat.cast _), withSign_mul, mul_div_assoc, ← scales,
        ← whole]
      generalize a.mantissa / b.mantissa = quotient
      push_cast
      ring
    rw [exact]
    exact .refl _
  · rw [if_neg divides] at h
    rw [mul_div_assoc, ← pow_left_div, ← mul_div_assoc]
    exact rounds_of_nearest? pos h

end Decimal

end VenueSigner
