import VenueSigner.Market.Amounts
import VenueSigner.Proofs.DecimalExact
/-!
Base units. The multiple of a number by a million is exact, or there is no room for it, so that a
number is rounded at most once; with six fraction digits or fewer it is not rounded at all.
-/

namespace VenueSigner

open Rounding (withSign)

namespace Decimal

theorem baseUnits_eq_ok_iff (n d : Decimal) (u : Uint64) :
    (if n.negative then .error (.exceedsBaseUnits d)
      else match Uint.ofNat? 64 n.mantissa with
        | some u => .ok u
        | none => .error (.exceedsBaseUnits d) : Result Uint64) = .ok u ↔
      n.negative = false ∧ n.mantissa = u.val := by
  rw [← Uint.ofNat?_eq_some_iff]
  cases n.negative with
  | true => simp
  | false => cases Uint.ofNat? 64 n.mantissa <;> simp

theorem signed_of_nonnegative {n : Decimal} (h : n.negative = false) : n.signed = n.mantissa := by
  rw [signed_eq, withSign, h]
  rfl

theorem Plain.eq_val_iff {n : Decimal} (plain : n.Plain) (u : Uint64) :
    n.negative = false ∧ n.mantissa = u.val ↔ n.signed = u.val := by
  constructor
  · rintro ⟨positive, units⟩
    rw [signed_of_nonnegative positive, units]
  · intro same
    have positive : n.negative = false := by
      by_contra negative
      rw [Bool.not_eq_false, plain.negative_iff] at negative
      omega
    rw [signed_of_nonnegative positive] at same
    exact ⟨positive, by exact_mod_cast same⟩

theorem toRat_million : million.toRat = 10 ^ 6 := by
  rw [toRat]
  norm_num [million, signed]

theorem toBaseUnits_of_writable {d : Decimal} (h : Writable (d.toRat * 10 ^ 6)) (u : Uint64) :
    d.toBaseUnits = .ok u ↔ Rounding.halfAway (d.toRat * 10 ^ 6) = u.val := by
  rw [← toRat_million] at h ⊢
  obtain ⟨scaled, product, value, _⟩ := mul?_of_writable h
  have plain : (scaled.roundNearest 0).Plain := plain_round (plain_of_mul? product) 0
  have places : (scaled.roundNearest 0).scale = 0 := Nat.le_zero.1 (scale_round_le _ scaled 0)
  have nearest : (scaled.roundNearest 0).signed = Rounding.halfAway scaled.toRat := by
    have rounded := toRat_roundNearest scaled 0
    rw [pow_zero, mul_one, mul_one, toRat, places, pow_zero, div_one] at rounded
    exact_mod_cast rounded
  rw [toBaseUnits, product, ← value, ← nearest, ← plain.eq_val_iff u]
  exact baseUnits_eq_ok_iff _ d u

theorem writable_of_lt {d : Decimal} (h : |d.toRat * 10 ^ 6| < (limit : ℚ)) :
    Writable (d.toRat * 10 ^ 6) := by
  by_cases many : 6 ≤ d.scale
  · refine ⟨⟨d.negative, d.mantissa, d.scale - 6, d.mantissa_lt, ?_⟩, ?_⟩
    · have places := d.scale_le
      omega
    · have power : (10 : ℚ) ^ d.scale = 10 ^ (d.scale - 6) * 10 ^ 6 := by
        rw [← pow_add, Nat.sub_add_cancel many]
      change (d.signed : ℚ) / 10 ^ (d.scale - 6) = d.toRat * 10 ^ 6
      rw [toRat, power, div_mul_eq_mul_div, mul_div_mul_right _ _ (by positivity)]
  · have whole := toRat_mul_pow_of_le (by omega : d.scale ≤ 6)
    have power : (10 : ℚ) ^ 6 = 10 ^ d.scale * 10 ^ (6 - d.scale) := by
      rw [← pow_add, Nat.add_sub_cancel' (by omega)]
    have size : |d.toRat * 10 ^ 6| = ((d.mantissa * 10 ^ (6 - d.scale) : ℕ) : ℚ) := by
      rw [abs_mul, abs_toRat, abs_of_pos (by positivity : (0 : ℚ) < 10 ^ 6), power, ← mul_assoc,
        div_mul_cancel₀ _ (by positivity)]
      push_cast
      rfl
    rw [size, Nat.cast_lt] at h
    obtain ⟨e, _, value, _⟩ := exists_ofParts? d.negative h (Nat.zero_le _)
    refine ⟨e, ?_⟩
    rw [value, whole, pow_zero, div_one, Nat.cast_mul, mul_comm, withSign_mul, signed_eq, mul_comm]
    push_cast
    rfl

theorem lt_of_toBaseUnits {d : Decimal} {u : Uint64} (h : d.toBaseUnits = .ok u) :
    |d.toRat * 10 ^ 6| < (limit : ℚ) := by
  unfold toBaseUnits at h
  split at h
  · contradiction
  · next scaled product =>
    rw [← toRat_million]
    exact abs_lt_of_mul? product

/-- Base units are the multiple rounded to the nearest integer, a half away from zero, if there is
room for it. -/
theorem toBaseUnits_eq_ok_iff_halfAway (d : Decimal) (u : Uint64) :
    d.toBaseUnits = .ok u ↔ Rounding.halfAway (d.toRat * 10 ^ 6) = u.val := by
  constructor
  · intro h
    exact (toBaseUnits_of_writable (writable_of_lt (lt_of_toBaseUnits h)) u).1 h
  · intro h
    refine (toBaseUnits_of_writable (writable_of_lt ?_) u).2 h
    have near := Rounding.abs_sub_halfAway_le (d.toRat * 10 ^ 6)
    have fits : ((u.val : ℤ) : ℚ) < 2 ^ 64 := by exact_mod_cast u.val_lt
    have nonneg : (0 : ℚ) ≤ ((u.val : ℤ) : ℚ) := by positivity
    rw [h, abs_le] at near
    have large : (2 : ℚ) ^ 64 + 1 < limit := by norm_num [limit]
    rw [abs_lt]
    constructor <;> linarith

theorem toBaseUnits_eq_ok_iff_of_int {d : Decimal} {n : ℤ} (h : d.toRat * 10 ^ 6 = n) (u : Uint64) :
    d.toBaseUnits = .ok u ↔ n = u.val := by
  rw [toBaseUnits_eq_ok_iff_halfAway, h, Rounding.halfAway_intCast]

theorem toBaseUnits_eq_ok_iff {d : Decimal} {u : Uint64} (hs : d.scale ≤ 6) :
    d.toBaseUnits = .ok u ↔ d.toRat * 10 ^ 6 = u.val := by
  have whole := toRat_mul_pow_of_le hs
  rw [toBaseUnits_eq_ok_iff_of_int whole, whole]
  exact_mod_cast Iff.rfl

theorem mul?_million (d : Decimal) :
    (limit : ℚ) ≤ |d.toRat * 10 ^ 6| ∧ d.mul? million = none ∨
      |d.toRat * 10 ^ 6| < (limit : ℚ) ∧
        ∃ scaled, d.mul? million = some scaled ∧ scaled.toRat = d.toRat * 10 ^ 6 := by
  obtain large | small := le_or_gt (limit : ℚ) |d.toRat * 10 ^ 6|
  · refine .inl ⟨large, Option.eq_none_iff_forall_ne_some.2 fun scaled product => ?_⟩
    have fits := abs_lt_of_mul? product
    rw [toRat_million] at fits
    exact absurd large (not_le.2 fits)
  · have writable := writable_of_lt small
    rw [← toRat_million] at writable
    obtain ⟨scaled, product, value, _⟩ := mul?_of_writable writable
    exact .inr ⟨small, scaled, product, by rw [value, toRat_million]⟩

/-- Numbers that have no base units are told apart by whether decimals have room for their
multiple. -/
theorem toBaseUnits_error_iff (d : Decimal) (e : Error) : d.toBaseUnits = .error e ↔
    (∀ u, d.toBaseUnits ≠ .ok u) ∧
      e = if (limit : ℚ) ≤ |d.toRat * 10 ^ 6| then .exceedsDecimal d else .exceedsBaseUnits d := by
  have only : ∀ e, d.toBaseUnits = .error e →
      e = if (limit : ℚ) ≤ |d.toRat * 10 ^ 6| then .exceedsDecimal d else .exceedsBaseUnits d := by
    intro e failed
    obtain ⟨large, none⟩ | ⟨small, scaled, product, _⟩ := d.mul?_million
    · rw [toBaseUnits, none] at failed
      rw [if_pos large]
      exact (Except.error.inj failed).symm
    · rw [toBaseUnits, product] at failed
      dsimp only at failed
      rw [if_neg (not_le.2 small)]
      split at failed
      · exact (Except.error.inj failed).symm
      · split at failed
        · contradiction
        · exact (Except.error.inj failed).symm
  constructor
  · intro failed
    exact ⟨fun u ok => by rw [ok] at failed; contradiction, only e failed⟩
  · rintro ⟨never, rfl⟩
    cases result : d.toBaseUnits with
    | ok u => exact absurd result (never u)
    | error e => rw [only e result]

theorem kind_of_toBaseUnits_error {d : Decimal} {e : Error} (failed : d.toBaseUnits = .error e) :
    e.kind = .numericOverflow := by
  rw [((d.toBaseUnits_error_iff e).1 failed).2]
  split <;> rfl

/-- A number has as many base units as the nearest integer to its multiple by a million says, a half
going away from zero, if they are neither negative nor too many, and no base units otherwise; this
is the only rounding, since the multiple is exact before it. -/
theorem toBaseUnits_rounds_once (d : Decimal) :
    let units := Rounding.halfAway (d.toRat * 10 ^ 6)
    (∀ u : Uint64, d.toBaseUnits = .ok u ↔ (u.val : ℤ) = units) ∧
    ((∃ u, d.toBaseUnits = .ok u) ↔ 0 ≤ units ∧ units < 2 ^ 64) ∧
    (∀ e, d.toBaseUnits = .error e ↔ ¬(0 ≤ units ∧ units < 2 ^ 64) ∧
      e = if (limit : ℚ) ≤ |d.toRat * 10 ^ 6| then .exceedsDecimal d else .exceedsBaseUnits d) ∧
    (∀ e, d.toBaseUnits = .error e → e.kind = .numericOverflow) ∧
    ∀ scaled, d.mul? million = some scaled → scaled.toRat = d.toRat * 10 ^ 6 := by
  intro units
  have ok (u : Uint64) : d.toBaseUnits = .ok u ↔ (u.val : ℤ) = units := by
    rw [toBaseUnits_eq_ok_iff_halfAway, eq_comm]
  have some : (∃ u, d.toBaseUnits = .ok u) ↔ 0 ≤ units ∧ units < 2 ^ 64 := by
    simp only [ok]
    constructor
    · rintro ⟨u, same⟩
      have fits := u.val_lt
      omega
    · rintro ⟨nonneg, room⟩
      exact ⟨⟨units.toNat, by omega⟩, Int.toNat_of_nonneg nonneg⟩
  refine ⟨ok, some, fun e => ?_, fun e => kind_of_toBaseUnits_error, fun scaled product => ?_⟩
  · rw [toBaseUnits_error_iff, ← some, not_exists]
  · obtain ⟨_, none⟩ | ⟨_, _, product', value⟩ := d.mul?_million
    · rw [product] at none
      contradiction
    · rw [product, Option.some.injEq] at product'
      rw [product', value]

-- four ten-millionths below zero are rounded to nothing, and nothing has no sign
example : (toBaseUnits ⟨true, 4, 7, by decide, by decide⟩).toOption = some (Uint.zero 64) := by
  decide +kernel

end Decimal

namespace Decimal

theorem dropZeros_mul_pow (m scale : ℕ) :
    (dropZeros m scale).1 * 10 ^ scale = m * 10 ^ (dropZeros m scale).2 := by
  induction scale generalizing m with
  | zero => rfl
  | succ scale ih =>
    unfold dropZeros
    split
    · next zero =>
      have ten : m = m / 10 * 10 := (Nat.div_mul_cancel (Nat.dvd_of_mod_eq_zero zero)).symm
      calc (dropZeros (m / 10) scale).1 * 10 ^ (scale + 1)
          = (dropZeros (m / 10) scale).1 * 10 ^ scale * 10 := by rw [Nat.pow_succ, Nat.mul_assoc]
        _ = m / 10 * 10 * 10 ^ (dropZeros (m / 10) scale).2 := by rw [ih, Nat.mul_right_comm]
        _ = m * 10 ^ (dropZeros (m / 10) scale).2 := by rw [← ten]
    · rfl

theorem places_le_scale (d : Decimal) : d.places ≤ d.scale :=
  dropZeros_snd_le d.mantissa d.scale

theorem toRat_eq_places (d : Decimal) :
    d.toRat = (withSign d.negative (dropZeros d.mantissa d.scale).1 : ℤ) / 10 ^ d.places := by
  have same : ((dropZeros d.mantissa d.scale).1 : ℤ) * 10 ^ d.scale = d.mantissa * 10 ^ d.places :=
    mod_cast dropZeros_mul_pow d.mantissa d.scale
  have signs := congrArg (withSign d.negative) same
  rw [mul_comm, withSign_mul, mul_comm (d.mantissa : ℤ), withSign_mul] at signs
  rw [toRat, div_eq_div_iff (by positivity) (by positivity), signed_eq]
  have cast := congrArg (Int.cast : ℤ → ℚ) signs
  push_cast at cast
  linarith

theorem exists_int_of_places_le {d : Decimal} {places : ℕ} (h : d.places ≤ places) :
    ∃ n : ℤ, d.toRat * 10 ^ places = n := by
  have power : (10 : ℚ) ^ places = 10 ^ d.places * 10 ^ (places - d.places) := by
    rw [← pow_add, Nat.add_sub_cancel' h]
  refine ⟨withSign d.negative (dropZeros d.mantissa d.scale).1 * 10 ^ (places - d.places), ?_⟩
  rw [toRat_eq_places, power, ← mul_assoc, div_mul_cancel₀ _ (by positivity)]
  push_cast
  rfl

end Decimal

namespace Precision

theorem clamp_of_places_le {p : Precision} {d : Decimal} (h : d.places ≤ p.amount) :
    p.clamp d = d :=
  if_pos h

theorem clamp_of_scale_le {p : Precision} {d : Decimal} (h : d.scale ≤ p.amount) :
    p.clamp d = d :=
  clamp_of_places_le (Nat.le_trans d.places_le_scale h)

theorem toRat_clamp (p : Precision) (d : Decimal) :
    (p.clamp d).toRat * 10 ^ p.amount = ⌊(⌈d.toRat * 10 ^ (p.amount + 4)⌉ : ℚ) / 10 ^ 4⌋ := by
  unfold clamp
  split
  · next few =>
    obtain ⟨n, whole⟩ := Decimal.exists_int_of_places_le few
    have more : d.toRat * 10 ^ (p.amount + 4) = ((n * 10 ^ 4 : ℤ) : ℚ) := by
      rw [pow_add, ← mul_assoc, whole]
      push_cast
      rfl
    have back : ((n * 10 ^ 4 : ℤ) : ℚ) / 10 ^ 4 = n := by
      rw [Int.cast_mul, Int.cast_pow, Int.cast_ofNat, mul_div_cancel_right₀ _ (by positivity)]
    rw [more, Int.ceil_intCast, back, Int.floor_intCast, whole]
  · have up : (d.roundUp (p.amount + 4)).toRat * 10 ^ (p.amount + 4) = _ :=
      Decimal.toRat_round .up d (p.amount + 4)
    have behind : (⌈d.toRat * 10 ^ (p.amount + 4)⌉ : ℚ) / 10 ^ 4 =
        (d.roundUp (p.amount + 4)).toRat * 10 ^ p.amount := by
      rw [← Rounding.Mode.integer, ← up, pow_add, ← mul_assoc,
        mul_div_cancel_right₀ _ (by positivity)]
    rw [behind]
    dsimp only
    split
    · exact Decimal.toRat_roundDown _ _
    · next few =>
      obtain ⟨n, whole⟩ := Decimal.exists_int_of_places_le (Nat.le_of_not_lt few)
      rw [whole, Int.floor_intCast]

end Precision

end VenueSigner
