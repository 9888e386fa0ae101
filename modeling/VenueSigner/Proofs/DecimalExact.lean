import VenueSigner.Decimal.Arithmetic
import VenueSigner.Proofs.DecimalValue
/-!
Products and sums of decimals are exact whenever a decimal denotes them: what is dropped for want of
room is nothing but zeros then.
-/

namespace VenueSigner.Decimal

open Rounding (withSign)

/-- Some decimal denotes the number. -/
def Writable (x : ℚ) : Prop :=
  ∃ d : Decimal, d.toRat = x

theorem withSign_and_ne_zero (negative : Bool) (m : ℕ) :
    withSign (negative && m != 0) m = withSign negative m := by
  cases m with
  | zero => cases negative <;> rfl
  | succ m => rw [bne_iff_ne.2 (Nat.succ_ne_zero m), Bool.and_true]

theorem toRat_of_ofParts? {negative : Bool} {m scale : ℕ} {d : Decimal}
    (h : ofParts? negative m scale = some d) :
    d.toRat = (withSign negative m : ℤ) / 10 ^ scale := by
  unfold ofParts? at h
  split at h
  · cases h
    rw [toRat, signed_eq, withSign_and_ne_zero]
  · contradiction

theorem exists_ofParts? (negative : Bool) {m scale : ℕ} (hm : m < limit) (hs : scale ≤ maxScale) :
    ∃ d, ofParts? negative m scale = some d ∧
      d.toRat = (withSign negative m : ℤ) / 10 ^ scale ∧ d.scale = scale := by
  have range : m < 2 ^ 96 ∧ scale ≤ 28 := ⟨hm, hs⟩
  have parts : ofParts? negative m scale =
      some ⟨negative && m != 0, m, scale, range.1, range.2⟩ := dif_pos range
  exact ⟨_, parts, toRat_of_ofParts? parts, rfl⟩

theorem writable_natCast (n : ℕ) (fits : n < limit) : Writable n := by
  obtain ⟨d, -, value, -⟩ := exists_ofParts? false fits (Nat.zero_le maxScale)
  exact ⟨d, by simpa [withSign] using value⟩

theorem abs_withSign (negative : Bool) (m : ℕ) : |((withSign negative m : ℤ) : ℚ)| = m := by
  unfold withSign
  split <;> simp

theorem withSign_mul (negative : Bool) (m n : ℤ) :
    withSign negative (m * n) = m * withSign negative n := by
  unfold withSign
  split
  · exact (mul_neg m n).symm
  · rfl

theorem withSign_natAbs (n : ℤ) : withSign (decide (n < 0)) n.natAbs = n := by
  unfold withSign
  split
  · next h =>
    rw [decide_eq_true_eq] at h
    omega
  · next h =>
    rw [decide_eq_true_eq] at h
    omega

theorem withSign_product (a b : Decimal) :
    ((withSign (a.negative != b.negative) (a.mantissa * b.mantissa : ℕ) : ℤ) : ℚ) /
      10 ^ (a.scale + b.scale) = a.toRat * b.toRat := by
  rw [toRat, toRat, div_mul_div_comm, ← pow_add, signed_eq, signed_eq]
  cases a.negative <;> cases b.negative <;> simp [withSign]

theorem excess_le {m drop : ℕ} (h : m / 10 ^ drop < limit) (fuel : ℕ) : excess m fuel ≤ drop := by
  induction fuel generalizing m drop with
  | zero => exact Nat.zero_le drop
  | succ fuel ih =>
    unfold excess
    split
    · exact Nat.zero_le drop
    · next large =>
      cases drop with
      | zero => exact absurd (by simpa using h) large
      | succ drop =>
        rw [Nat.pow_succ', ← Nat.div_div_eq_div_mul] at h
        exact Nat.succ_le_succ (ih h)

theorem div_excess_lt {m drop fuel : ℕ} (h : m / 10 ^ drop < limit) (enough : drop ≤ fuel) :
    m / 10 ^ excess m fuel < limit := by
  induction fuel generalizing m drop with
  | zero =>
    rw [Nat.le_zero.1 enough] at h
    exact h
  | succ fuel ih =>
    unfold excess
    split
    · next small => rwa [pow_zero, Nat.div_one]
    · next large =>
      cases drop with
      | zero => exact absurd (by simpa using h) large
      | succ drop =>
        rw [Nat.pow_succ', ← Nat.div_div_eq_div_mul] at h ⊢
        exact ih h (by omega)

theorem divHalfEven_of_dvd {num den : ℕ} (pos : 0 < den) (h : den ∣ num) :
    Rounding.divHalfEven num den = num / den := by
  unfold Rounding.divHalfEven
  rw [Nat.mod_eq_zero_of_dvd h]
  exact if_neg (by omega)

theorem exists_drop_of_writable {negative : Bool} {m scale : ℕ}
    (h : Writable ((withSign negative m : ℤ) / 10 ^ scale)) :
    ∃ drop ≤ scale, scale - drop ≤ maxScale ∧ 10 ^ drop ∣ m ∧ m / 10 ^ drop < limit := by
  obtain ⟨d, value⟩ := h
  have same : m * 10 ^ d.scale = d.mantissa * 10 ^ scale := by
    have sizes := congrArg abs value
    rw [abs_toRat, abs_div, abs_withSign, abs_of_pos (by positivity : (0 : ℚ) < 10 ^ scale),
      div_eq_div_iff (by positivity) (by positivity)] at sizes
    exact_mod_cast sizes.symm
  -- the places that the decimal does without hold zeros; if it has more, nothing has to go
  by_cases more : d.scale ≤ scale
  · have power : 10 ^ scale = 10 ^ (scale - d.scale) * 10 ^ d.scale := by
      rw [← pow_add, Nat.sub_add_cancel more]
    rw [power, ← mul_assoc] at same
    have zeros := Nat.eq_of_mul_eq_mul_right (by positivity) same
    refine ⟨scale - d.scale, Nat.sub_le _ _, ?_, ⟨d.mantissa, by rw [zeros, mul_comm]⟩, ?_⟩
    · rw [Nat.sub_sub_self more]
      exact d.scale_le
    · rw [zeros, Nat.mul_div_cancel _ (by positivity)]
      exact d.mantissa_lt
  · have power : 10 ^ d.scale = 10 ^ (d.scale - scale) * 10 ^ scale := by
      rw [← pow_add, Nat.sub_add_cancel (by omega)]
    rw [power, ← mul_assoc] at same
    have fewer := Nat.eq_of_mul_eq_mul_right (by positivity) same
    refine ⟨0, Nat.zero_le _, ?_, one_dvd m, ?_⟩
    · have places := d.scale_le
      change scale - 0 ≤ 28
      omega
    · rw [pow_zero, Nat.div_one]
      calc m ≤ m * 10 ^ (d.scale - scale) := Nat.le_mul_of_pos_right m (by positivity)
        _ = d.mantissa := fewer
        _ < limit := d.mantissa_lt

theorem fit?_of_writable {negative : Bool} {m scale : ℕ}
    (h : Writable ((withSign negative m : ℤ) / 10 ^ scale)) :
    ∃ d, fit? negative m scale = some d ∧
      d.toRat = (withSign negative m : ℤ) / 10 ^ scale ∧ d.scale ≤ scale := by
  obtain ⟨zeros, le, places, divides, fits⟩ := exists_drop_of_writable h
  have few : max (scale - maxScale) (excess m (scale + 1)) ≤ zeros :=
    max_le (by omega) (excess_le fits _)
  have enough : m / 10 ^ max (scale - maxScale) (excess m (scale + 1)) < limit :=
    Nat.lt_of_le_of_lt
      (Nat.div_le_div_left (Nat.pow_le_pow_right (by decide) (le_max_right _ _)) (by positivity))
      (div_excess_lt fits (by omega))
  have most : scale - max (scale - maxScale) (excess m (scale + 1)) ≤ maxScale := by omega
  unfold fit?
  dsimp only
  generalize max (scale - maxScale) (excess m (scale + 1)) = drop at few enough most ⊢
  have divides' : 10 ^ drop ∣ m := Nat.dvd_trans (Nat.pow_dvd_pow 10 few) divides
  have whole := divHalfEven_of_dvd (by positivity) divides'
  obtain ⟨d, parts, value, places'⟩ := exists_ofParts? negative enough most
  rw [whole, if_neg (Nat.ne_of_lt enough), if_pos (Nat.le_trans few le), whole]
  refine ⟨d, parts, ?_, by omega⟩
  obtain ⟨kept, rfl⟩ := divides'
  have power : (10 : ℚ) ^ scale = 10 ^ drop * 10 ^ (scale - drop) := by
    rw [← pow_add, Nat.add_sub_cancel' (Nat.le_trans few le)]
  rw [value, Nat.mul_div_cancel_left _ (by positivity), Nat.cast_mul, withSign_mul, power]
  push_cast
  rw [mul_div_mul_left _ _ (by positivity)]

theorem toRat_mul_of_isZero {a b : Decimal} (h : (a.isZero || b.isZero) = true) :
    a.toRat * b.toRat = 0 := by
  cases Bool.or_eq_true_iff.1 h with
  | inl h => rw [toRat_of_isZero h, zero_mul]
  | inr h => rw [toRat_of_isZero h, mul_zero]

/-- A product that can be written is exact. -/
theorem mul?_of_writable {a b : Decimal} (h : Writable (a.toRat * b.toRat)) :
    ∃ d, a.mul? b = some d ∧ d.toRat = a.toRat * b.toRat ∧ d.scale ≤ a.scale + b.scale := by
  unfold mul?
  by_cases zero : (a.isZero || b.isZero) = true
  · refine ⟨Decimal.zero, if_pos zero, ?_, Nat.zero_le _⟩
    rw [toRat_mul_of_isZero zero]
    exact toRat_zero
  · rw [← withSign_product] at h ⊢
    rw [if_neg zero]
    exact fit?_of_writable h

theorem mul?_exact {a b : Decimal} (hm : a.mantissa * b.mantissa < limit)
    (hs : a.scale + b.scale ≤ maxScale) :
    ∃ d, a.mul? b = some d ∧ d.toRat = a.toRat * b.toRat ∧ d.scale ≤ a.scale + b.scale := by
  refine mul?_of_writable ?_
  obtain ⟨d, _, value, _⟩ := exists_ofParts? (a.negative != b.negative) hm hs
  exact ⟨d, by rw [value, withSign_product]⟩

/-- A sum that can be written is exact. -/
theorem add?_of_writable {a b : Decimal} (h : Writable (a.toRat + b.toRat)) :
    ∃ d, a.add? b = some d ∧ d.toRat = a.toRat + b.toRat := by
  unfold add?
  by_cases zeroA : a.isZero = true
  · exact ⟨b, if_pos zeroA, by rw [toRat_of_isZero zeroA, zero_add]⟩
  · by_cases zeroB : b.isZero = true
    · rw [if_neg zeroA, if_pos zeroB]
      exact ⟨a, rfl, by rw [toRat_of_isZero zeroB, add_zero]⟩
    · rw [if_neg zeroA, if_neg zeroB]
      dsimp only
      generalize sumEq : a.signed * 10 ^ (max a.scale b.scale - a.scale) +
        b.signed * 10 ^ (max a.scale b.scale - b.scale) = sum
      have value : ((withSign (decide (sum < 0)) sum.natAbs : ℤ) : ℚ) / 10 ^ max a.scale b.scale =
          a.toRat + b.toRat := by
        rw [withSign_natAbs, div_eq_iff (by positivity), add_mul,
          toRat_mul_pow_of_le (Nat.le_max_left a.scale b.scale),
          toRat_mul_pow_of_le (Nat.le_max_right a.scale b.scale), ← sumEq]
        push_cast
        rfl
      rw [← value] at h ⊢
      obtain ⟨d, fitted, same, _⟩ := fit?_of_writable h
      exact ⟨d, fitted, same⟩

def Plain (d : Decimal) : Prop :=
  d.negative = true → d.mantissa ≠ 0

theorem plain_round {mode : Rounding.Mode} {d : Decimal} (h : d.Plain) (places : ℕ) :
    (d.round mode places).Plain := by
  unfold round
  split
  · exact h
  · intro negative
    simp only [Bool.and_eq_true, Bool.or_eq_true, bne_iff_ne, isZero, decide_eq_true_eq] at negative
    cases negative.2 with
    | inl nonzero => exact nonzero
    | inr zero => exact absurd zero (h negative.1)

theorem plain_of_ofParts? {negative : Bool} {m scale : ℕ} {d : Decimal}
    (h : ofParts? negative m scale = some d) : d.Plain := by
  unfold ofParts? at h
  split at h
  · rw [Option.some.injEq] at h
    subst h
    intro negative
    simp only [Bool.and_eq_true, bne_iff_ne] at negative
    exact negative.2
  · contradiction

theorem exists_drop_of_fit? {negative : Bool} {m scale : ℕ} {d : Decimal}
    (h : fit? negative m scale = some d) :
    ∃ drop ≤ scale,
      ofParts? negative (Rounding.divHalfEven m (10 ^ drop)) (scale - drop) = some d := by
  unfold fit? at h
  dsimp only at h
  generalize (if Rounding.divHalfEven m (10 ^ max (scale - maxScale) (excess m (scale + 1))) = limit
    then max (scale - maxScale) (excess m (scale + 1)) + 1
    else max (scale - maxScale) (excess m (scale + 1))) = drop at h
  by_cases le : drop ≤ scale
  · rw [if_pos le] at h
    exact ⟨drop, le, h⟩
  · rw [if_neg le] at h
    contradiction

theorem plain_of_mul? {a b d : Decimal} (h : a.mul? b = some d) : d.Plain := by
  unfold mul? at h
  split at h
  · rw [Option.some.injEq] at h
    subst h
    intro negative
    contradiction
  · obtain ⟨_, _, parts⟩ := exists_drop_of_fit? h
    exact plain_of_ofParts? parts

theorem Plain.negative_iff {d : Decimal} (h : d.Plain) : d.negative = true ↔ d.signed < 0 := by
  rw [signed_eq, withSign]
  constructor
  · intro negative
    have nonzero := h negative
    rw [if_pos negative]
    omega
  · intro below
    by_contra positive
    rw [if_neg positive] at below
    omega

theorem whole_le_of_fit? {negative : Bool} {m scale : ℕ} {d : Decimal}
    (h : fit? negative m scale = some d) : m / 10 ^ scale ≤ d.mantissa / 10 ^ d.scale := by
  obtain ⟨drop, le, parts⟩ := exists_drop_of_fit? h
  have power : 10 ^ scale = 10 ^ drop * 10 ^ (scale - drop) := by
    rw [← pow_add, Nat.add_sub_cancel' le]
  unfold ofParts? at parts
  split at parts
  · rw [Option.some.injEq] at parts
    subst parts
    rw [power, ← Nat.div_div_eq_div_mul]
    exact Nat.div_le_div_right (Rounding.le_divHalfEven m (10 ^ drop))
  · contradiction

theorem abs_lt_of_mul? {a b d : Decimal} (h : a.mul? b = some d) :
    |a.toRat * b.toRat| < (limit : ℚ) := by
  unfold mul? at h
  by_cases zero : (a.isZero || b.isZero) = true
  · rw [toRat_mul_of_isZero zero, abs_zero]
    norm_num [limit]
  · rw [if_neg zero] at h
    have whole : a.mantissa * b.mantissa / 10 ^ (a.scale + b.scale) < limit :=
      calc a.mantissa * b.mantissa / 10 ^ (a.scale + b.scale)
          ≤ d.mantissa / 10 ^ d.scale := whole_le_of_fit? h
        _ ≤ d.mantissa := Nat.div_le_self _ _
        _ < limit := d.mantissa_lt
    rw [Nat.div_lt_iff_lt_mul (by positivity)] at whole
    rw [← withSign_product, abs_div, abs_withSign, abs_of_pos (by positivity),
      div_lt_iff₀ (by positivity)]
    exact_mod_cast whole

end VenueSigner.Decimal
