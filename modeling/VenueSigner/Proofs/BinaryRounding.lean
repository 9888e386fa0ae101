import Mathlib.Algebra.Order.Field.Power
import VenueSigner.Json.Binary64
import VenueSigner.Proofs.DecimalQuotient
/-!
How far a binary number lies from the fraction that it is rounded from: half a unit of its last bit
at most. So whatever is not too large has a nearest binary number, products and quotients included,
and a whole number of 64 bits can be scaled by any power of ten that leaves it in range.
-/

namespace VenueSigner.Binary64

open Rounding (divHalfEven)

def magnitude (x : Binary64) : ℚ :=
  x.mantissa * 2 ^ x.exponent

structure InRange (x : Binary64) : Prop where
  mantissa_lt : x.mantissa < 2 ^ 53
  exponent_le : x.exponent ≤ maxExponent

/-- The middle between the largest number and the first one that is too large; everything below it
has a nearest binary number. -/
def ceiling : ℚ :=
  (2 ^ 54 - 1) * 2 ^ (970 : ℤ)

theorem magnitude_nonneg (x : Binary64) : 0 ≤ x.magnitude := by
  unfold magnitude
  positivity

theorem pow_natAbs (b : ℚ) {e : ℤ} (h : 0 ≤ e) : b ^ e.natAbs = b ^ e := by
  rw [← zpow_natCast, Int.natAbs_of_nonneg h]

theorem pow_natAbs_neg (b : ℚ) {e : ℤ} (h : e < 0) : b ^ e.natAbs = (b ^ e)⁻¹ := by
  rw [← zpow_natCast, Int.ofNat_natAbs_of_nonpos h.le, zpow_neg]

theorem ratio_scaleBits (num den : ℕ) (shift : ℤ) :
    ((scaleBits num den shift).1 : ℚ) / (scaleBits num den shift).2 = num / den * 2 ^ shift := by
  unfold scaleBits
  split
  · next negative =>
    push_cast
    rw [pow_natAbs_neg 2 negative, div_mul_eq_div_div, div_inv_eq_mul]
  · next nonnegative =>
    push_cast
    rw [pow_natAbs 2 (not_lt.1 nonnegative), div_mul_eq_mul_div]

theorem scaleBits_pos {den : ℕ} (num : ℕ) (shift : ℤ) (pos : 0 < den) :
    0 < (scaleBits num den shift).2 := by
  unfold scaleBits
  split
  · exact Nat.mul_pos pos (Nat.two_pow_pos _)
  · exact pos

theorem ratio_fraction (x : Binary64) : (x.fraction.1 : ℚ) / x.fraction.2 = x.magnitude := by
  rw [fraction, ratio_scaleBits, Nat.cast_one, div_one, magnitude]

theorem fraction_pos (x : Binary64) : 0 < x.fraction.2 :=
  scaleBits_pos _ _ Nat.one_pos

theorem le_div_iff_ratio {num den bound : ℕ} (pos : 0 < den) :
    bound ≤ num / den ↔ (bound : ℚ) ≤ num / den := by
  have positive : (0 : ℚ) < den := by exact_mod_cast pos
  rw [Nat.le_div_iff_mul_le pos, le_div_iff₀ positive]
  exact_mod_cast Iff.rfl

theorem two_zpow_log2 {n : ℕ} (pos : 0 < n) :
    (2 : ℚ) ^ (n.log2 : ℤ) ≤ n ∧ (n : ℚ) < 2 ^ ((n.log2 : ℤ) + 1) := by
  have low : 2 ^ n.log2 ≤ n := Nat.log2_self_le pos.ne'
  have high : n < 2 ^ (n.log2 + 1) := Nat.lt_log2_self
  constructor
  · rw [zpow_natCast]
    exact_mod_cast low
  · have cast : ((n.log2 : ℤ) + 1) = ((n.log2 + 1 : ℕ) : ℤ) := rfl
    rw [cast, zpow_natCast]
    exact_mod_cast high

/-- The bit lengths of a fraction's parts tell its size up to a factor of four. -/
theorem ratio_bounds_of_log2 {num den : ℕ} (some : 0 < num) (pos : 0 < den) :
    (2 : ℚ) ^ ((num.log2 : ℤ) - den.log2 - 1) ≤ num / den ∧
      (num : ℚ) / den < 2 ^ ((num.log2 : ℤ) - den.log2 + 1) := by
  obtain ⟨lowNum, highNum⟩ := two_zpow_log2 some
  obtain ⟨lowDen, highDen⟩ := two_zpow_log2 pos
  have positive : (0 : ℚ) < den := by exact_mod_cast pos
  constructor
  · rw [le_div_iff₀ positive]
    calc (2 : ℚ) ^ ((num.log2 : ℤ) - den.log2 - 1) * den
        ≤ 2 ^ ((num.log2 : ℤ) - den.log2 - 1) * 2 ^ ((den.log2 : ℤ) + 1) :=
          mul_le_mul_of_nonneg_left highDen.le (zpow_pos two_pos _).le
      _ = 2 ^ (num.log2 : ℤ) := by rw [← zpow_add₀ (two_ne_zero' ℚ)]; congr 1; ring
      _ ≤ num := lowNum
  · rw [div_lt_iff₀ positive]
    calc (num : ℚ) < 2 ^ ((num.log2 : ℤ) + 1) := highNum
      _ = 2 ^ ((num.log2 : ℤ) - den.log2 + 1) * 2 ^ (den.log2 : ℤ) := by
          rw [← zpow_add₀ (two_ne_zero' ℚ)]; congr 1; ring
      _ ≤ 2 ^ ((num.log2 : ℤ) - den.log2 + 1) * den :=
          mul_le_mul_of_nonneg_left lowDen (zpow_pos two_pos _).le

/-- At the exponent of a fraction its mantissa has no more than 53 bits, and no fewer unless the
exponent is the least. -/
theorem exponentFor_spec {num den : ℕ} (some : 0 < num) (pos : 0 < den) :
    (num : ℚ) / den < 2 ^ (exponentFor num den + 53) ∧
      (exponentFor num den = minExponent ∨ 2 ^ (exponentFor num den + 52) ≤ (num : ℚ) / den) := by
  obtain ⟨low, high⟩ := ratio_bounds_of_log2 some pos
  unfold exponentFor
  set guess : ℤ := (num.log2 : ℤ) - den.log2 - 53 with hguess
  have reaches : 2 ^ 53 ≤ (scaleBits num den (-guess)).1 / (scaleBits num den (-guess)).2 ↔
      (2 : ℚ) ^ (guess + 53) ≤ num / den := by
    rw [le_div_iff_ratio (scaleBits_pos _ _ pos), ratio_scaleBits, zpow_neg, ← div_eq_mul_inv,
      le_div_iff₀ (zpow_pos two_pos _), add_comm, zpow_add₀ (two_ne_zero' ℚ)]
    norm_num
  dsimp only
  obtain ⟨e, he, below, above⟩ : ∃ e, (if 2 ^ 53 ≤ (scaleBits num den (-guess)).1 /
      (scaleBits num den (-guess)).2 then guess + 1 else guess) = e ∧
        (num : ℚ) / den < 2 ^ (e + 53) ∧ 2 ^ (e + 52) ≤ (num : ℚ) / den := by
    by_cases large : 2 ^ 53 ≤ (scaleBits num den (-guess)).1 / (scaleBits num den (-guess)).2
    · refine ⟨guess + 1, if_pos large, ?_, ?_⟩
      · exact lt_of_lt_of_le high (zpow_le_zpow_right₀ one_le_two (by omega))
      · rw [add_assoc]
        exact reaches.1 large
    · refine ⟨guess, if_neg large, not_le.1 fun h => large (reaches.2 h), ?_⟩
      exact (zpow_le_zpow_right₀ one_le_two (by omega)).trans low
  rw [he]
  refine ⟨lt_of_lt_of_le below (zpow_le_zpow_right₀ one_le_two (by omega)), ?_⟩
  by_cases least : e ≤ minExponent
  · exact .inl (max_eq_left least)
  · rw [max_eq_right (not_le.1 least).le]
    exact .inr above

/-- The number is within half of a power of two of the fraction, and the power is the least one or
has 52 bits less than the fraction. -/
def Near (x : Binary64) (r : ℚ) : Prop :=
  ∃ e : ℤ, |x.magnitude - r| ≤ 2 ^ e / 2 ∧ (e = minExponent ∨ 2 ^ (e + 52) ≤ r)

theorem Near.relative {x : Binary64} {r : ℚ} (h : Near x r) (one : 1 ≤ r) :
    |x.magnitude - r| ≤ r / 2 ^ 53 := by
  obtain ⟨e, near, least | bits⟩ := h
  · have small : (2 : ℚ) ^ e ≤ 2 ^ (-53 : ℤ) :=
      zpow_le_zpow_right₀ one_le_two (by rw [least]; decide)
    have power : (2 : ℚ) ^ (-53 : ℤ) = 1 / 2 ^ 53 := by norm_num
    have part : 1 / 2 ^ 53 ≤ r / 2 ^ 53 := div_le_div_of_nonneg_right one (by norm_num)
    rw [power] at small
    exact near.trans (by linarith [zpow_pos (two_pos : (0 : ℚ) < 2) e])
  · rw [zpow_add₀ (two_ne_zero' ℚ)] at bits
    norm_num at bits ⊢
    linarith

theorem Near.magnitude_le {x : Binary64} {r : ℚ} (h : Near x r) (nonneg : 0 ≤ r) :
    x.magnitude ≤ 2 * r + 1 := by
  obtain ⟨e, near, least | bits⟩ := h
  · have small : (2 : ℚ) ^ e ≤ 2 ^ (0 : ℤ) := zpow_le_zpow_right₀ one_le_two (by rw [least]; decide)
    rw [zpow_zero] at small
    linarith [(abs_le.1 near).2]
  · rw [zpow_add₀ (two_ne_zero' ℚ)] at bits
    have unit : (0 : ℚ) < 2 ^ e := by positivity
    linarith [(abs_le.1 near).2]

section Nearest

variable {num den : ℕ}

theorem mantissa_near (some : 0 < num) (pos : 0 < den) :
    let e := exponentFor num den
    let m := divHalfEven (scaleBits num den (-e)).1 (scaleBits num den (-e)).2
    m ≤ 2 ^ 53 ∧ |(m : ℚ) * 2 ^ e - num / den| ≤ 2 ^ e / 2 := by
  intro e m
  obtain ⟨below, -⟩ := exponentFor_spec some pos
  have half := Rounding.abs_divHalfEven_sub_le (scaleBits num den (-e)).1
    (scaleBits_pos num (-e) pos)
  rw [ratio_scaleBits, zpow_neg, ← div_eq_mul_inv] at half
  have unit : (0 : ℚ) < 2 ^ e := by positivity
  constructor
  · have bound : (num : ℚ) / den / 2 ^ e < 2 ^ 53 := by
      rw [div_lt_iff₀ unit, ← zpow_natCast, ← zpow_add₀ (two_ne_zero' ℚ), add_comm]
      exact below
    have less : (m : ℚ) < ((2 ^ 53 + 1 : ℕ) : ℚ) := by
      push_cast
      linarith [(abs_le.1 half).2]
    exact Nat.lt_succ_iff.1 (by exact_mod_cast less)
  · have scaled := mul_le_mul_of_nonneg_right half unit.le
    rw [← abs_of_pos unit, ← abs_mul, abs_of_pos unit, sub_mul,
      div_mul_cancel₀ _ unit.ne'] at scaled
    linarith

theorem magnitude_carry (e : ℤ) : ((2 ^ 52 : ℕ) : ℚ) * 2 ^ (e + 1) = (2 ^ 53 : ℕ) * 2 ^ e := by
  rw [zpow_add₀ (two_ne_zero' ℚ)]
  push_cast
  ring

theorem nearest?_eq (some : 0 < num) : nearest? num den =
    let e := exponentFor num den
    let m := divHalfEven (scaleBits num den (-e)).1 (scaleBits num den (-e)).2
    if m = 2 ^ 53 then if e + 1 ≤ maxExponent then .some ⟨false, 2 ^ 52, e + 1⟩ else none
    else if e ≤ maxExponent then .some ⟨false, m, e⟩ else none := by
  rw [nearest?, if_neg some.ne']
  dsimp only
  split <;> rfl

theorem nearest?_spec {x : Binary64} (pos : 0 < den) (h : nearest? num den = some x) :
    x.InRange ∧ Near x (num / den) := by
  obtain none | some := Nat.eq_zero_or_pos num
  · rw [none, nearest?, if_pos rfl] at h
    obtain rfl := Option.some.inj h
    refine ⟨⟨by decide, by decide⟩, minExponent, ?_, .inl rfl⟩
    rw [none, Nat.cast_zero, zero_div, sub_zero, zero, magnitude, Nat.cast_zero, zero_mul, abs_zero]
    exact (half_pos (zpow_pos two_pos _)).le
  · obtain ⟨most, near⟩ := mantissa_near some pos
    obtain ⟨-, bits⟩ := exponentFor_spec some pos
    rw [nearest?_eq some] at h
    dsimp only at h most near
    generalize divHalfEven _ _ = m at h most near
    split at h
    · next carry =>
      obtain ⟨le, found⟩ := Option.ite_none_right_eq_some.1 h
      obtain rfl := Option.some.inj found
      refine ⟨⟨show 2 ^ 52 < 2 ^ 53 by decide, le⟩, _, ?_, bits⟩
      rwa [magnitude, magnitude_carry, ← carry]
    · next fits =>
      obtain ⟨le, found⟩ := Option.ite_none_right_eq_some.1 h
      obtain rfl := Option.some.inj found
      exact ⟨⟨Nat.lt_of_le_of_ne most fits, le⟩, _, near, bits⟩

/-- Whatever is not too large has a nearest binary number. -/
theorem exists_nearest? (pos : 0 < den) (small : (num : ℚ) / den < ceiling) :
    ∃ x, nearest? num den = some x := by
  obtain none | some := Nat.eq_zero_or_pos num
  · exact ⟨zero, if_pos none⟩
  · obtain ⟨most, near⟩ := mantissa_near some pos
    obtain ⟨-, bits⟩ := exponentFor_spec some pos
    rw [nearest?_eq some]
    dsimp only at near ⊢
    generalize exponentFor num den = e at *
    generalize divHalfEven _ _ = m at *
    have le : e ≤ maxExponent := by
      obtain least | bits := bits
      · rw [least]
        decide
      · by_contra above
        have power : (2 : ℚ) ^ (54 + 970 : ℤ) ≤ 2 ^ (e + 52) :=
          zpow_le_zpow_right₀ one_le_two (by rw [maxExponent] at above; omega)
        have unit : (0 : ℚ) < 2 ^ (970 : ℤ) := by positivity
        rw [zpow_add₀ (two_ne_zero' ℚ)] at power
        rw [ceiling] at small
        generalize (2 : ℚ) ^ (970 : ℤ) = u at power unit small
        norm_num at power small
        linarith
    split
    · next carry =>
      -- the last exponent would carry only what is not below the ceiling
      have room : e ≠ maxExponent := fun last => by
        have double : (2 : ℚ) ^ (971 : ℤ) = 2 ^ (1 : ℤ) * 2 ^ (970 : ℤ) :=
          zpow_add₀ two_ne_zero 1 970
        rw [carry, last, maxExponent, double] at near
        rw [ceiling] at small
        generalize (2 : ℚ) ^ (970 : ℤ) = u at near small
        push_cast at near
        linarith [(abs_le.1 near).2]
      rw [if_pos (Int.add_one_le_of_lt (lt_of_le_of_ne le room))]
      exact ⟨_, rfl⟩
    · exact ⟨_, rfl⟩

end Nearest

section Operations

variable {x y z : Binary64}

theorem mul?_eq (x y : Binary64) :
    x.mul? y = nearest? (x.fraction.1 * y.fraction.1) (x.fraction.2 * y.fraction.2) := rfl

theorem div?_eq (x y : Binary64) :
    x.div? y = nearest? (x.fraction.1 * y.fraction.2) (x.fraction.2 * y.fraction.1) := rfl

theorem ratio_mul (x y : Binary64) :
    ((x.fraction.1 * y.fraction.1 : ℕ) : ℚ) / (x.fraction.2 * y.fraction.2 : ℕ) =
      x.magnitude * y.magnitude := by
  rw [Nat.cast_mul, Nat.cast_mul, ← div_mul_div_comm, ratio_fraction, ratio_fraction]

theorem ratio_div (x y : Binary64) :
    ((x.fraction.1 * y.fraction.2 : ℕ) : ℚ) / (x.fraction.2 * y.fraction.1 : ℕ) =
      x.magnitude / y.magnitude := by
  rw [Nat.cast_mul, Nat.cast_mul, ← div_div_div_eq, ratio_fraction, ratio_fraction]

theorem mul_fraction_pos (x y : Binary64) : 0 < x.fraction.2 * y.fraction.2 :=
  Nat.mul_pos x.fraction_pos y.fraction_pos

theorem div_fraction_pos (x : Binary64) (pos : 0 < y.magnitude) :
    0 < x.fraction.2 * y.fraction.1 := by
  refine Nat.mul_pos x.fraction_pos (Nat.pos_of_ne_zero fun none => ?_)
  rw [← ratio_fraction, none, Nat.cast_zero, zero_div] at pos
  exact lt_irrefl _ pos

theorem mul?_inRange (h : x.mul? y = some z) : z.InRange :=
  (nearest?_spec (mul_fraction_pos x y) h).1

theorem exists_mul? (small : x.magnitude * y.magnitude < ceiling) : ∃ z, x.mul? y = some z := by
  rw [mul?_eq]
  exact exists_nearest? (mul_fraction_pos x y) (by rwa [ratio_mul])

theorem div?_spec (pos : 0 < y.magnitude) (h : x.div? y = some z) :
    z.InRange ∧ Near z (x.magnitude / y.magnitude) := by
  rw [← ratio_div]
  exact nearest?_spec (div_fraction_pos x pos) h

theorem exists_div? (pos : 0 < y.magnitude) (small : x.magnitude / y.magnitude < ceiling) :
    ∃ z, x.div? y = some z := by
  rw [div?_eq]
  exact exists_nearest? (div_fraction_pos x pos) (by rwa [ratio_div])

end Operations

theorem natCast_eq_ceiling : (((2 ^ 54 - 1) * 2 ^ 970 : ℕ) : ℚ) = ceiling := by
  rw [Nat.cast_mul, Nat.cast_pow _ 970, Nat.cast_two, ← zpow_natCast, ceiling]
  norm_num

theorem lt_ceiling {n : ℕ} (h : n < (2 ^ 54 - 1) * 2 ^ 970) : (n : ℚ) < ceiling := by
  rw [← natCast_eq_ceiling]
  exact_mod_cast h

theorem exists_nearest?_natCast {n : ℕ} (h : n < (2 ^ 54 - 1) * 2 ^ 970) :
    ∃ x, nearest? n 1 = some x :=
  exists_nearest? Nat.one_pos (by rw [Nat.cast_one, div_one]; exact lt_ceiling h)

theorem exists_tenPow? {n : ℕ} (few : n ≤ 308) : ∃ t, tenPow? n = some t := by
  refine exists_nearest?_natCast ?_
  calc 10 ^ n ≤ 10 ^ 308 := Nat.pow_le_pow_right (by decide) few
    _ < (2 ^ 54 - 1) * 2 ^ 970 := by decide +kernel

theorem nearest?_natCast {n : ℕ} {x : Binary64} (some : 0 < n) (h : nearest? n 1 = .some x) :
    |x.magnitude - n| ≤ n / 2 ^ 53 := by
  have near := (nearest?_spec Nat.one_pos h).2
  rw [Nat.cast_one, div_one] at near
  exact near.relative (by exact_mod_cast some)

theorem tenPow?_near {n : ℕ} {t : Binary64} (h : tenPow? n = some t) :
    |t.magnitude - 10 ^ n| ≤ 10 ^ n / 2 ^ 53 := by
  have near := nearest?_natCast (Nat.pow_pos (by decide)) h
  push_cast at near
  exact near

theorem le_tenPow? {n : ℕ} {t : Binary64} (h : tenPow? n = some t) :
    (10 : ℚ) ^ n / 2 ≤ t.magnitude := by
  have near := (abs_le.1 (tenPow?_near h)).1
  have power : (0 : ℚ) < 10 ^ n := by positivity
  norm_num at near
  linarith

theorem tenPow?_pos {n : ℕ} {t : Binary64} (h : tenPow? n = some t) : 0 < t.magnitude :=
  lt_of_lt_of_le (by positivity) (le_tenPow? h)

def highest : ℚ :=
  (2 ^ 54 - 7) * 2 ^ (970 : ℤ)

theorem roundings_lt {m p : ℚ} (low : m * p ≤ highest) :
    (m + m / 2 ^ 53) * (p + p / 2 ^ 53) < ceiling := by
  have unit : (0 : ℚ) < 2 ^ (970 : ℤ) := by positivity
  have factor : (m + m / 2 ^ 53) * (p + p / 2 ^ 53) = m * p * (1 + 1 / 2 ^ 53) ^ 2 := by ring
  rw [factor]
  refine lt_of_le_of_lt (mul_le_mul_of_nonneg_right low (by positivity)) ?_
  rw [highest, ceiling, mul_right_comm]
  exact mul_lt_mul_of_pos_right (by norm_num) unit

theorem highest_lt : highest < 10 ^ (309 : ℤ) := by
  have limit : (2 ^ 54 - 1) * 2 ^ 970 < 10 ^ 309 := by decide +kernel
  have cast : (((2 ^ 54 - 1) * 2 ^ 970 : ℕ) : ℚ) < ((10 ^ 309 : ℕ) : ℚ) := Nat.cast_lt.2 limit
  rw [natCast_eq_ceiling, Nat.cast_pow, ← zpow_natCast] at cast
  refine lt_trans (mul_lt_mul_of_pos_right ?_ (zpow_pos two_pos 970)) cast
  norm_num

theorem exists_div?_tenPow? {x t : Binary64} {n : ℕ} (small : x.magnitude ≤ 2 ^ 65) (pos : 0 < n)
    (power : tenPow? n = some t) : ∃ y, x.div? t = some y ∧ y.magnitude ≤ 2 ^ 65 := by
  have five : 5 ≤ t.magnitude := by
    have ten : (10 : ℚ) ^ 1 ≤ 10 ^ n := pow_le_pow_right₀ (by norm_num) pos
    linarith [le_tenPow? power]
  have quotient : x.magnitude / t.magnitude ≤ 2 ^ 65 / 5 :=
    div_le_div₀ (by norm_num) small (by norm_num) five
  have below : x.magnitude / t.magnitude < ceiling := by
    have limit : (2 ^ 65 : ℕ) < (2 ^ 54 - 1) * 2 ^ 970 := by decide +kernel
    have cast := lt_ceiling limit
    push_cast at cast
    linarith
  obtain ⟨y, found⟩ := exists_div? (tenPow?_pos power) below
  have near := (div?_spec (tenPow?_pos power) found).2
  have nonneg := div_nonneg x.magnitude_nonneg t.magnitude_nonneg
  refine ⟨y, found, (near.magnitude_le nonneg).trans ?_⟩
  linarith

theorem exists_lower {x : Binary64} (small : x.magnitude ≤ 2 ^ 65) (steps : ℕ) :
    ∃ y, x.lower steps = some y ∧ y.magnitude ≤ 2 ^ 65 := by
  induction steps generalizing x with
  | zero => exact ⟨x, rfl, small⟩
  | succ steps ih =>
    rw [lower]
    split
    · exact ⟨x, rfl, small⟩
    · obtain ⟨t, power⟩ := exists_tenPow? (Nat.le_refl 308)
      obtain ⟨y, found, below⟩ := exists_div?_tenPow? small (by decide) power
      obtain ⟨z, lowered, below⟩ := ih below
      refine ⟨z, ?_, below⟩
      simp only [power, found, lowered, Option.bind_eq_bind, Option.bind_some]

theorem scaled?_inRange {significand : ℕ} {power : ℤ} {x : Binary64}
    (h : scaled? significand power = some x) : x.InRange := by
  obtain ⟨y, nearest, h⟩ := Option.bind_eq_some_iff.1 h
  have range := (nearest?_spec Nat.one_pos nearest).1
  split at h
  · exact Option.some.inj h ▸ range
  · split at h
    · contradiction
    · split at h
      · obtain ⟨t, tenPow, h⟩ := Option.bind_eq_some_iff.1 h
        exact mul?_inRange h
      · dsimp only at h
        split at h
        · obtain rfl := Option.some.inj h
          exact ⟨by decide, by decide⟩
        · obtain ⟨z, lowered, h⟩ := Option.bind_eq_some_iff.1 h
          obtain ⟨t, tenPow, h⟩ := Option.bind_eq_some_iff.1 h
          exact (div?_spec (tenPow?_pos tenPow) h).1

theorem exists_raised {x : Binary64} {significand power : ℕ} (few : power ≤ 308)
    (near : x.magnitude ≤ significand + significand / 2 ^ 53)
    (low : (significand : ℚ) * 10 ^ power ≤ highest) :
    ∃ t y, tenPow? power = some t ∧ x.mul? t = some y := by
  obtain ⟨t, tenPow⟩ := exists_tenPow? few
  have nearTen := (abs_le.1 (tenPow?_near tenPow)).2
  have both : x.magnitude * t.magnitude ≤
      (significand + significand / 2 ^ 53) * (10 ^ power + 10 ^ power / 2 ^ 53) :=
    mul_le_mul near (by linarith) t.magnitude_nonneg (by positivity)
  obtain ⟨y, product⟩ := exists_mul? (both.trans_lt (roundings_lt low))
  exact ⟨t, y, tenPow, product⟩

/-- A whole number of 64 bits can be scaled to whatever is not higher than the highest. -/
theorem exists_scaled? {significand : ℕ} {power : ℤ} (fits : significand < 2 ^ 64)
    (low : (significand : ℚ) * 10 ^ power ≤ highest) :
    ∃ x, scaled? significand power = some x := by
  obtain ⟨x, nearest⟩ := exists_nearest?_natCast (Nat.lt_trans fits (by decide +kernel))
  rw [scaled?, nearest, Option.bind_eq_bind, Option.bind_some]
  split
  · exact ⟨x, rfl⟩
  next nonzero =>
  have some : 0 < significand := by
    refine Nat.pos_of_ne_zero fun none => nonzero ?_
    rw [none] at nearest
    exact (Option.some.inj nearest) ▸ rfl
  have near := sub_le_iff_le_add'.1 (abs_le.1 (nearest?_natCast some nearest)).2
  split
  · next large =>
    -- the power alone is too much then
    have one : (1 : ℚ) ≤ significand := by exact_mod_cast some
    have least : (10 : ℚ) ^ (309 : ℤ) ≤ 10 ^ power := zpow_le_zpow_right₀ (by norm_num) large
    have unit : (0 : ℚ) < 10 ^ power := by positivity
    have product := mul_le_mul_of_nonneg_right one unit.le
    rw [one_mul] at product
    exact absurd (least.trans (product.trans low)) (not_le.2 highest_lt)
  split
  · next raised =>
    rw [← pow_natAbs 10 raised] at low
    obtain ⟨t, y, tenPow, product⟩ := exists_raised (by omega) near low
    exact ⟨y, by rw [tenPow, Option.bind_some, product]⟩
  · next lowered =>
    have most : (significand : ℚ) < 2 ^ 64 := by exact_mod_cast fits
    have small : x.magnitude ≤ 2 ^ 65 := by linarith
    -- what is left of the power after the steps is between 1 and 308
    obtain ⟨y, reached, below⟩ := exists_lower small ((power.natAbs - 1) / 308)
    obtain ⟨t, tenPow⟩ := exists_tenPow? (n := power.natAbs - 308 * ((power.natAbs - 1) / 308))
      (by omega)
    obtain ⟨z, quotient, -⟩ := exists_div?_tenPow? below (by omega) tenPow
    dsimp only
    split
    · exact ⟨_, rfl⟩
    · exact ⟨z, by rw [reached, Option.bind_some, tenPow, Option.bind_some, quotient]⟩

end VenueSigner.Binary64
