import VenueSigner.Proofs.BaseUnits
/-!
What clamping does to an amount. Whichever way it goes, the amount is rounded up four digits behind
those it may have, and cut to these. So the result depends on the value alone, grows with it, stays
close to it, and is left as it is when it is clamped again.
-/

namespace VenueSigner

namespace Rounding

/-- A number rounded up four digits behind some places and then down to these. -/
def snap (places : ℕ) (x : ℚ) : ℚ :=
  ⌊(⌈x * 10 ^ (places + 4)⌉ : ℚ) / 10 ^ 4⌋ / 10 ^ places

theorem snap_mono (places : ℕ) : Monotone (snap places) := by
  intro x y le
  have up : ⌈x * 10 ^ (places + 4)⌉ ≤ ⌈y * 10 ^ (places + 4)⌉ :=
    Int.ceil_mono (mul_le_mul_of_nonneg_right le (by positivity))
  have down : ⌊(⌈x * 10 ^ (places + 4)⌉ : ℚ) / 10 ^ 4⌋ ≤ ⌊(⌈y * 10 ^ (places + 4)⌉ : ℚ) / 10 ^ 4⌋ :=
    Int.floor_mono (div_le_div_of_nonneg_right (by exact_mod_cast up) (by positivity))
  exact div_le_div_of_nonneg_right (by exact_mod_cast down) (by positivity)

theorem snap_bounds (places : ℕ) (x : ℚ) :
    x - 1 / 10 ^ places < snap places x ∧ snap places x < x + 1 / 10 ^ (places + 4) := by
  have unit : (0 : ℚ) < 10 ^ places := by positivity
  have parts : (10 : ℚ) ^ (places + 4) = 10 ^ places * 10 ^ 4 := pow_add 10 places 4
  have above := Int.le_ceil (x * 10 ^ (places + 4))
  have below := Int.ceil_lt_add_one (x * 10 ^ (places + 4))
  have cut := Int.floor_le ((⌈x * 10 ^ (places + 4)⌉ : ℚ) / 10 ^ 4)
  have kept := Int.lt_floor_add_one ((⌈x * 10 ^ (places + 4)⌉ : ℚ) / 10 ^ 4)
  unfold snap
  generalize (⌈x * 10 ^ (places + 4)⌉ : ℤ) = up at above below cut kept ⊢
  generalize (⌊(up : ℚ) / 10 ^ 4⌋ : ℤ) = down at cut kept ⊢
  rw [parts] at above below ⊢
  rw [le_div_iff₀ (by norm_num)] at cut
  rw [div_lt_iff₀ (by norm_num)] at kept
  constructor
  · rw [lt_div_iff₀ unit, sub_mul, div_mul_cancel₀ _ unit.ne']
    linarith
  · rw [div_lt_iff₀ unit, add_mul, ← div_div, div_mul_eq_mul_div, div_mul_cancel₀ _ unit.ne']
    linarith

end Rounding

namespace Precision

variable (p : Precision) (d : Decimal)

theorem toRat_clamp_eq : (p.clamp d).toRat = Rounding.snap p.amount d.toRat := by
  rw [Rounding.snap, ← toRat_clamp, mul_div_cancel_right₀ _ (by positivity)]

theorem places_clamp_le : (p.clamp d).places ≤ p.amount := by
  unfold clamp
  split
  · assumption
  · dsimp only
    split
    · exact Nat.le_trans (Decimal.places_le_scale _) (Decimal.scale_round_le _ _ _)
    · next few => exact Nat.le_of_not_lt few

/-- The clamped amount, if the place up to which it is rounded first can be counted in 32 bits or is
not asked for. -/
def clampInWord? : Option Decimal :=
  if d.places ≤ p.amount then some d
  else
    (Uint.ofNat? 32 (p.amount + 4)).map fun further =>
      let r := d.roundUp further.val
      if p.amount < r.places then r.roundDown p.amount else r

theorem clampInWord?_eq : p.clampInWord? d = some (p.clamp d) := by
  unfold clampInWord? clamp
  split
  · rfl
  · next many =>
    have most : d.places ≤ 28 := Nat.le_trans d.places_le_scale d.scale_le
    have fits : p.amount + 4 < 2 ^ 32 := by omega
    rw [Uint.ofNat?_of_lt fits]
    rfl

/-- A clamped amount has no more digits than it may have, and is the number rounded up four digits
behind these and then down to them; the count of digits for that never overflows a word. Clamping
twice is clamping once. The result grows with the number, is less than one unit of its last digit
below it and less than one unit of four digits on above it, and is the same for all decimals that
denote the number. -/
theorem clamp_snaps :
    (p.clamp d).places ≤ p.amount ∧
    (p.clamp d).toRat =
      ⌊(⌈d.toRat * 10 ^ (p.amount + 4)⌉ : ℚ) / 10 ^ 4⌋ / 10 ^ p.amount ∧
    p.clampInWord? d = some (p.clamp d) ∧
    p.clamp (p.clamp d) = p.clamp d ∧
    (∀ e : Decimal, d.toRat ≤ e.toRat → (p.clamp d).toRat ≤ (p.clamp e).toRat) ∧
    (d.toRat - 1 / 10 ^ p.amount < (p.clamp d).toRat ∧
      (p.clamp d).toRat < d.toRat + 1 / 10 ^ (p.amount + 4)) ∧
    ∀ e : Decimal, e.toRat = d.toRat → (p.clamp e).toRat = (p.clamp d).toRat := by
  have value := p.toRat_clamp_eq
  refine ⟨p.places_clamp_le d, value d, p.clampInWord?_eq d,
    clamp_of_places_le (p.places_clamp_le d), fun e le => ?_, ?_, fun e same => ?_⟩
  · rw [value, value]
    exact Rounding.snap_mono p.amount le
  · rw [value]
    exact Rounding.snap_bounds p.amount d.toRat
  · rw [value, value, same]

end Precision

end VenueSigner
