import VenueSigner.Proofs.DecimalQuotient
/-!
Decimals have a quotient just when there is room for its whole part, with what is rounded up to it.
Digits behind the point are never in the way: the last of them can be given up.
-/

namespace VenueSigner

namespace Rounding

theorem divHalfEven_lt_iff {den bound : ℕ} (num : ℕ) (pos : 0 < den) (even : bound % 2 = 0) :
    divHalfEven num den < bound ↔ (num : ℚ) / den < bound - 1 / 2 := by
  obtain ⟨lower, upper⟩ := remainder_bounds num pos
  rw [quotient_bounds num pos]
  unfold divHalfEven
  dsimp only
  generalize num / den = q
  generalize num % den = r at lower upper ⊢
  by_cases high : den < 2 * r ∨ (2 * r = den ∧ q % 2 = 1)
  · have above := not_lt.1 ((lt_half_iff r pos).not.2 (by omega))
    rw [if_pos high]
    constructor
    · intro below
      have cast : (q : ℚ) + 2 ≤ bound := by exact_mod_cast below
      linarith
    · intro below
      have cast : (q : ℚ) + 1 < bound := by linarith
      exact_mod_cast cast
  · rw [if_neg high]
    constructor
    · intro below
      -- half way to an even bound the quotient is odd, and would have been rounded up
      obtain last | before : q + 1 = bound ∨ q + 2 ≤ bound := by omega
      · have under := (lt_half_iff r pos).2 (by omega)
        have cast : (q : ℚ) + 1 = bound := by exact_mod_cast last
        linarith
      · have cast : (q : ℚ) + 2 ≤ bound := by exact_mod_cast before
        linarith
    · intro below
      have cast : (q : ℚ) < bound := by linarith
      exact_mod_cast cast

end Rounding

namespace Decimal

open Rounding (divHalfEven)

theorem mul_room_lt {m most : ℕ} (h : room m most ≠ 0) : m * 10 ^ room m most < limit := by
  induction most with
  | zero => contradiction
  | succ n ih =>
    unfold room at h ⊢
    split
    · assumption
    · next full =>
      rw [if_neg full] at h
      exact ih h

theorem mul_pow_div_lt {num den : ℕ} (pos : 0 < den) (count : ℕ) :
    num * 10 ^ count / den < (num / den + 1) * 10 ^ count := by
  rw [Nat.div_lt_iff_lt_mul pos, Nat.mul_right_comm]
  exact Nat.mul_lt_mul_of_pos_right (Nat.lt_mul_of_div_lt (Nat.lt_succ_self _) pos) (by positivity)

theorem longDivision?_lt {num den left : ℕ} {p : ℕ × ℕ} (pos : 0 < den) (fits : num / den < limit)
    (h : longDivision? num den left = some p) (later : p.2 < maxScale) :
    p.1 / den < limit + 10 ^ 9 := by
  fun_induction longDivision? num den left with
  | case1 num left exact =>
    rw [Option.some.injEq] at h
    subst h
    have none : left - maxScale = 0 := by
      dsimp only at later
      omega
    rw [none, pow_zero, mul_one]
    exact Nat.lt_add_right _ fits
  | case2 num left inexact block full short =>
    rw [Option.some.injEq] at h
    subst h
    exact Nat.lt_add_right _ fits
  | case3 num left inexact block full long => contradiction
  | case4 num left inexact block some large =>
    rw [Option.some.injEq] at h
    subst h
    have most : block ≤ 9 := Nat.le_trans (room_le _ _) (Nat.min_le_left _ _)
    have digits : 10 ^ block ≤ 10 ^ 9 := Nat.pow_le_pow_right (by decide) most
    calc num * 10 ^ block / den < (num / den + 1) * 10 ^ block := mul_pow_div_lt pos block
      _ = num / den * 10 ^ block + 10 ^ block := Nat.succ_mul _ _
      _ ≤ limit + 10 ^ 9 := Nat.add_le_add (mul_room_lt some).le digits
  | case5 num left inexact block some small ih => exact ih (Nat.lt_of_not_le small) h

theorem le_of_longDivision?_eq_none {num den left : ℕ} (h : longDivision? num den left = none) :
    (limit : ℚ) ≤ num / den * 10 ^ left / 10 ^ maxScale := by
  fun_induction longDivision? num den left with
  | case1 | case2 | case4 => contradiction
  | case3 num left inexact block full long =>
    have behind : 1 ≤ left - maxScale := by omega
    have last : maxScale = 28 := rfl
    have large := (of_room_eq_zero full).resolve_left (by omega)
    have cast : (limit : ℚ) ≤ ((num / den : ℕ) : ℚ) * 10 := by exact_mod_cast large
    have power : (10 : ℚ) ^ left = 10 ^ (left - maxScale) * 10 ^ maxScale := by
      rw [← pow_add, Nat.sub_add_cancel (by omega)]
    rw [power, ← mul_assoc, mul_div_cancel_right₀ _ (by positivity)]
    calc (limit : ℚ) ≤ ((num / den : ℕ) : ℚ) * 10 := cast
      _ ≤ num / den * 10 ^ (left - maxScale) := by
          gcongr
          · exact Nat.cast_div_le
          · exact le_self_pow₀ (by norm_num) (by omega)
  | case5 num left inexact block some small ih =>
    have most : block ≤ left := Nat.le_trans (room_le _ _) (Nat.min_le_right _ _)
    have value := shifted_div num den (Nat.sub_le left block)
    rw [Nat.sub_sub_self most] at value
    rw [← value]
    exact ih h

theorem dropBlock_le (count : ℕ) (d : ℕ × ℕ) :
    (dropBlock count d).1 ≤ d.1 ∧ (dropBlock count d).2 ≤ d.2 := by
  unfold dropBlock
  split
  · exact ⟨Nat.div_le_self _ _, Nat.sub_le _ _⟩
  · exact ⟨Nat.le_refl _, Nat.le_refl _⟩

theorem dropEights_le (m scale : ℕ) :
    (dropEights m scale).1 ≤ m ∧ (dropEights m scale).2 ≤ scale := by
  fun_induction dropEights m scale with
  | case1 m scale zeros ih => exact ⟨Nat.le_trans ih.1 (Nat.div_le_self _ _), by omega⟩
  | case2 => exact ⟨Nat.le_refl _, Nat.le_refl _⟩
  | case3 => exact ⟨Nat.le_refl _, Nat.le_refl _⟩

theorem dropBlocks_le (m scale : ℕ) :
    (dropBlocks m scale).1 ≤ m ∧ (dropBlocks m scale).2 ≤ scale := by
  have eights := dropEights_le m scale
  have fours := dropBlock_le 4 (dropEights m scale)
  have twos := dropBlock_le 2 (dropBlock 4 (dropEights m scale))
  have ones := dropBlock_le 1 (dropBlock 2 (dropBlock 4 (dropEights m scale)))
  unfold dropBlocks
  omega

theorem exists_ofDigits? (negative : Bool) {m scale : ℕ} (hm : m < limit) (hs : scale ≤ maxScale) :
    ∃ d, ofDigits? negative m scale = some d := by
  obtain ⟨mantissa, places⟩ := dropBlocks_le m scale
  obtain ⟨d, parts, _⟩ := exists_ofParts? negative (Nat.lt_of_le_of_lt mantissa hm)
    (Nat.le_trans places hs)
  exact ⟨d, parts⟩

theorem divHalfEven_tenth_lt {n den : ℕ} (close : n / den < limit + 10 ^ 9) :
    divHalfEven n (10 * den) < limit := by
  have most := Rounding.divHalfEven_le n (10 * den)
  have digits : n / (10 * den) = n / den / 10 := by
    rw [Nat.mul_comm, Nat.div_div_eq_div_mul]
  have large : limit = 2 ^ 96 := rfl
  omega

theorem div_pow_lt {n den places : ℕ} (pos : 0 < den) (close : n / den < limit + 10 ^ 9)
    (some : 1 ≤ places) : (n : ℚ) / den / 10 ^ places < limit - 1 / 2 := by
  have small : (n : ℚ) / den < limit + 10 ^ 9 := by
    rw [div_lt_iff₀ (by exact_mod_cast pos)]
    exact_mod_cast (Nat.div_lt_iff_lt_mul pos).1 close
  have power : (10 : ℚ) ^ 1 ≤ 10 ^ places := pow_le_pow_right₀ (by norm_num) some
  have large : (limit : ℚ) = 2 ^ 96 := by norm_num [limit]
  calc (n : ℚ) / den / 10 ^ places ≤ n / den / 10 ^ 1 :=
        div_le_div_of_nonneg_left (by positivity) (by norm_num) power
    _ < limit - 1 / 2 := by linarith

theorem le_mul_pow_div {n den l : ℕ} (whole : limit ≤ n / den) (late : maxScale ≤ l) :
    (limit : ℚ) ≤ n / den * 10 ^ l / 10 ^ maxScale := by
  have power : (10 : ℚ) ^ maxScale ≤ 10 ^ l := pow_le_pow_right₀ (by norm_num) late
  have cast : (limit : ℚ) ≤ (n : ℚ) / den := le_trans (by exact_mod_cast whole) Nat.cast_div_le
  calc (limit : ℚ) ≤ n / den * 1 := by rwa [mul_one]
    _ ≤ n / den * (10 ^ l / 10 ^ maxScale) := by
        gcongr
        rwa [one_le_div (by positivity)]
    _ = n / den * 10 ^ l / 10 ^ maxScale := (mul_div_assoc _ _ _).symm

theorem nearest?_of_longDivision? {negative : Bool} {num den left n l : ℕ}
    (divided : longDivision? num den left = some (n, l)) : nearest? negative num den left =
      if divHalfEven n den < limit then ofDigits? negative (divHalfEven n den) (maxScale - l)
      else if l < maxScale then ofDigits? negative (divHalfEven n (10 * den)) (maxScale - l - 1)
      else none := by
  rw [nearest?, divided]
  rfl

/-- A quotient has no decimal when its whole part, with what is rounded up to it, is too large. -/
theorem nearest?_eq_none_iff (negative : Bool) {num den left : ℕ} (pos : 0 < den)
    (fits : num / den < limit) : nearest? negative num den left = none ↔
      (limit : ℚ) - 1 / 2 ≤ num / den * 10 ^ left / 10 ^ maxScale := by
  cases divided : longDivision? num den left with
  | none =>
    have large := le_of_longDivision?_eq_none divided
    rw [nearest?, divided]
    exact ⟨fun _ => by linarith, fun _ => rfl⟩
  | some p =>
    obtain ⟨n, l⟩ := p
    obtain ⟨le, zeros, ends⟩ := longDivision?_spec divided
    dsimp only at le zeros ends
    have written {m places : ℕ} (room : m < limit) (few : places ≤ maxScale) :
        ofDigits? negative m places ≠ none :=
      Option.ne_none_iff_exists'.2 (exists_ofDigits? negative room few)
    have rounded := Rounding.divHalfEven_lt_iff n pos (by decide : limit % 2 = 0)
    rw [nearest?_of_longDivision? divided, ← shifted_div num den le, ← zeros]
    obtain early | last | late := lt_trichotomy l maxScale
    -- with a place left, the last digit can be given up
    · have close := longDivision?_lt pos fits divided early
      refine iff_of_false ?_ (not_le.2 ?_)
      · rw [if_pos early]
        split
        · next room => exact written room (Nat.sub_le _ _)
        · exact written (divHalfEven_tenth_lt close) (by omega)
      · rw [div_mul_pow_div _ early.le]
        exact div_pow_lt pos close (by omega)
    · rw [last, mul_div_cancel_right₀ _ (by positivity), ← not_lt, ← rounded]
      split
      · next room => exact iff_of_false (written room (Nat.sub_le _ _)) (not_not_intro room)
      · next full => exact iff_of_true (if_neg (Nat.lt_irrefl _)) full
    · have whole : limit ≤ n / den := ends.resolve_left (by omega)
      have full : ¬ divHalfEven n den < limit :=
        Nat.not_lt.2 (Nat.le_trans whole (Rounding.le_divHalfEven n den))
      rw [if_neg full, if_neg (by omega)]
      exact iff_of_true rfl (by linarith [le_mul_pow_div whole late.le])

theorem ofParts?_eq_none_iff (negative : Bool) {m scale : ℕ} (few : scale ≤ maxScale) :
    ofParts? negative m scale = none ↔ limit ≤ m := by
  constructor
  · intro none
    by_contra fits
    obtain ⟨d, parts, _⟩ := exists_ofParts? negative (Nat.lt_of_not_le fits) few
    rw [none] at parts
    contradiction
  · intro full
    exact dif_neg fun room => Nat.not_lt.2 full room.1

theorem sub_half_le_natCast_iff (m n : ℕ) : (m : ℚ) - 1 / 2 ≤ n ↔ m ≤ n := by
  constructor
  · intro close
    have cast : (m : ℚ) < n + 1 := by linarith
    exact Nat.lt_succ_iff.1 (by exact_mod_cast cast)
  · intro le
    have cast : (m : ℚ) ≤ n := by exact_mod_cast le
    linarith

/-- Other than by zero, decimals can be divided if there is room for the quotient. What is rounded
up to the limit does not fit. -/
theorem div?_eq_none_iff {a b : Decimal} (nonzero : b.isZero = false) :
    a.div? b = none ↔ (limit : ℚ) - 1 / 2 ≤ |a.toRat / b.toRat| := by
  have pos : 0 < b.mantissa := by
    have known : b.mantissa ≠ 0 := by simpa [isZero] using nonzero
    omega
  have fits : a.mantissa / b.mantissa < limit :=
    Nat.lt_of_le_of_lt (Nat.div_le_self _ _) a.mantissa_lt
  unfold div?
  rw [if_neg (by rw [nonzero]; decide)]
  by_cases zero : a.isZero = true
  · rw [if_pos zero, toRat_of_isZero zero, zero_div, abs_zero]
    exact iff_of_false (Option.some_ne_none _) (by norm_num [limit])
  rw [if_neg zero, abs_toRat_div_toRat, mul_div_assoc]
  by_cases divides : a.mantissa % b.mantissa = 0
  · have whole : ((a.mantissa / b.mantissa : ℕ) : ℚ) = a.mantissa / b.mantissa :=
      Nat.cast_div (Nat.dvd_of_mod_eq_zero divides) (by positivity)
    have most : a.scale - b.scale ≤ maxScale := Nat.le_trans (Nat.sub_le _ _) a.scale_le
    rw [if_pos divides, ofParts?_eq_none_iff _ most, ← pow_sub_div_pow_sub, ← whole]
    generalize a.mantissa / b.mantissa = quotient at fits
    obtain le | le := Nat.le_total a.scale b.scale
    -- the scale ends at the point, and the quotient is an integer
    · rw [Nat.sub_eq_zero_of_le le, pow_zero, div_one, ← sub_half_le_natCast_iff]
      push_cast
      rfl
    · have small : (quotient : ℚ) / 10 ^ (a.scale - b.scale) ≤ quotient :=
        div_le_self (Nat.cast_nonneg _) (one_le_pow₀ (by norm_num))
      have room := (sub_half_le_natCast_iff limit quotient).not.2 (Nat.not_le.2 fits)
      rw [Nat.sub_eq_zero_of_le le, pow_zero, pow_zero, mul_one, mul_one_div]
      exact iff_of_false (Nat.not_le.2 fits) fun above => room (le_trans above small)
  · rw [if_neg divides, ← pow_left_div, ← mul_div_assoc]
    exact nearest?_eq_none_iff _ pos fits

end Decimal

end VenueSigner
