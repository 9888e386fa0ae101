import VenueSigner.Json.Number
import VenueSigner.Proofs.BinaryRounding
import VenueSigner.Proofs.DecimalText
/-!
Every number that was read is written as a literal that is read again. An integer is read as itself.
The shortest numeral of a binary number lies so near to it that scaling it back is never too much:
it may give a neighbour of the number, but it always gives a binary number.
-/

namespace VenueSigner

namespace Digits

theorem length_ofNat {n k : ℕ} (low : 10 ^ k ≤ n) (high : n < 10 ^ (k + 1)) :
    (ofNat n).length = k + 1 := by
  induction k generalizing n with
  | zero =>
    rw [ofNat, if_pos (by simpa using high)]
    rfl
  | succ k ih =>
    rw [pow_succ] at low high
    have more : ¬ n < 10 := by
      have := Nat.pow_pos (show 0 < 10 by decide) (n := k)
      omega
    rw [ofNat, if_neg more, List.length_append, ih (by omega) (by omega), List.length_singleton]

end Digits

def Numeral.magnitude (n : Numeral) : ℚ :=
  Positional.value n.digits * 10 ^ n.power

namespace Binary64

def upperEnd (x : Binary64) : ℚ :=
  (4 * x.mantissa + 2) * 2 ^ (x.exponent - 2)

theorem upperEnd_nonneg (x : Binary64) : 0 ≤ x.upperEnd := by
  unfold upperEnd
  positivity

theorem ratio_scaleTens (count : ℕ) (power : ℤ) :
    let f : ℕ × ℕ :=
      if power < 0 then (count, 10 ^ power.natAbs) else (count * 10 ^ power.natAbs, 1)
    0 < f.2 ∧ (f.1 : ℚ) / f.2 = count * 10 ^ power := by
  intro f
  by_cases negative : power < 0
  · have split : f = (count, 10 ^ power.natAbs) := if_pos negative
    rw [split]
    refine ⟨Nat.pow_pos (by decide), ?_⟩
    push_cast
    rw [pow_natAbs_neg 10 negative, div_inv_eq_mul]
  · have split : f = (count * 10 ^ power.natAbs, 1) := if_neg negative
    rw [split]
    refine ⟨Nat.one_pos, ?_⟩
    push_cast
    rw [pow_natAbs 10 (not_lt.1 negative), div_one]

theorem le_of_accepts {x : Binary64} {count : ℕ} {power : ℤ} (h : x.accepts count power = true) :
    (count : ℚ) * 10 ^ power ≤ x.upperEnd := by
  obtain ⟨tens, ratio⟩ := ratio_scaleTens count power
  have units := scaleBits_pos 1 (x.exponent - 2) Nat.one_pos
  have unit := ratio_scaleBits 1 1 (x.exponent - 2)
  unfold accepts interval at h
  dsimp only at h
  rw [Bool.and_eq_true] at h
  replace h := h.2
  generalize (if power < 0 then (count, 10 ^ power.natAbs) else (count * 10 ^ power.natAbs, 1)) = f
    at h tens ratio
  generalize scaleBits 1 1 (x.exponent - 2) = g at h units unit
  rw [Nat.cast_one, div_one, one_mul] at unit
  have most : f.1 * g.2 ≤ (4 * x.mantissa + 2) * g.1 * f.2 := by
    simp only [Bool.or_eq_true, Bool.and_eq_true, decide_eq_true_eq, beq_iff_eq] at h
    omega
  have positive : (0 : ℚ) < f.2 := by exact_mod_cast tens
  have positive' : (0 : ℚ) < g.2 := by exact_mod_cast units
  rw [← ratio, upperEnd, ← unit, ← mul_div_assoc, div_le_div_iff₀ positive positive']
  exact_mod_cast most

theorem accepts_of_gridPoint? {x : Binary64} {count : ℕ} {power : ℤ}
    (h : x.gridPoint? power = some count) : x.accepts count power = true := by
  unfold gridPoint? at h
  dsimp only at h
  generalize (if power < 0 then (x.fraction.1 * 10 ^ power.natAbs, x.fraction.2)
    else (x.fraction.1, x.fraction.2 * 10 ^ power.natAbs)) = f at h
  generalize Rounding.divHalfEven f.1 f.2 = best at h
  generalize (if best = f.1 / f.2 then f.1 / f.2 + 1 else f.1 / f.2) = other at h
  split at h
  · next nearest => exact Option.some.inj h ▸ nearest
  · split at h
    · next second => exact Option.some.inj h ▸ second
    · contradiction

theorem shortestFrom_le (x : Binary64) (lead : ℤ) (places fuel : ℕ) :
    ((x.shortestFrom lead places fuel).1 : ℚ) * 10 ^ (x.shortestFrom lead places fuel).2 ≤
      x.upperEnd := by
  induction fuel generalizing places with
  | zero =>
    rw [shortestFrom]
    simpa using x.upperEnd_nonneg
  | succ fuel ih =>
    rw [shortestFrom]
    split
    · next count found => exact le_of_accepts (accepts_of_gridPoint? found)
    · exact ih (places + 1)

theorem stripZeros_eq (fuel : ℕ) (p : ℕ × ℤ) :
    ((stripZeros fuel p).1 : ℚ) * 10 ^ (stripZeros fuel p).2 = p.1 * 10 ^ p.2 := by
  induction fuel generalizing p with
  | zero => rfl
  | succ fuel ih =>
    obtain ⟨count, power⟩ := p
    rw [stripZeros]
    split
    · next zero =>
      have whole : (count : ℚ) = (count / 10 : ℕ) * 10 := by
        exact_mod_cast (Nat.div_mul_cancel (Nat.dvd_of_mod_eq_zero zero)).symm
      rw [ih, whole, zpow_add₀ (by norm_num), zpow_one]
      ring
    · rfl

def numeralFrom (x : Binary64) (lead : ℤ) : Numeral :=
  let p := stripZeros 20 (x.shortestFrom lead 0 18)
  ⟨Digits.ofNat p.1, p.2⟩

theorem shortest_eq (x : Binary64) :
    x.shortest = x.numeralFrom (leadingPower x.fraction.1 x.fraction.2) := by
  rw [shortest, numeralFrom]

theorem leadingPower_of_bounds {n k : ℕ} (low : 10 ^ k ≤ n) (high : n < 10 ^ (k + 1)) :
    leadingPower n 1 = k := by
  have one : 1 ≤ n := (Nat.one_le_pow _ _ (by decide)).trans low
  rw [leadingPower, if_pos one, Nat.div_one, Digits.length_ofNat low high]
  omega

theorem magnitude_shortest_le (x : Binary64) : x.shortest.magnitude ≤ x.upperEnd := by
  rw [shortest_eq, numeralFrom, Numeral.magnitude, Digits.value_ofNat, stripZeros_eq]
  exact x.shortestFrom_le _ _ _

theorem shortest_digits_ne_nil (x : Binary64) : x.shortest.digits ≠ [] :=
  Digits.ofNat_ne_nil _

end Binary64

namespace Json

def Literal.integer (l : Literal) : Int :=
  if l.negative then -l.whole else l.whole

/-- The literal is written without point and exponent, and 64 bits have room for it. -/
def Literal.Whole64 (l : Literal) : Prop :=
  l.fraction = [] ∧ l.exponent = none ∧ -2 ^ 63 ≤ l.integer ∧ l.integer < 2 ^ 64

def Literal.magnitude (l : Literal) : ℚ :=
  ((l.whole * 10 ^ l.fraction.length + Positional.value l.fraction : ℕ) : ℚ) *
    10 ^ (l.exponent.getD 0 - l.fraction.length)

namespace Number

theorem extend_of_fits {n : ℕ} {ds : List Digit}
    (fits : n * 10 ^ ds.length + Positional.value ds < 2 ^ 64) :
    extend n ds = (n * 10 ^ ds.length + Positional.value ds, []) := by
  induction ds generalizing n with
  | nil => simp [extend]
  | cons d ds ih =>
    rw [Positional.value_cons] at fits ⊢
    have first : n * 10 + d.val < 2 ^ 64 :=
      Nat.lt_of_le_of_lt ((Nat.le_mul_of_pos_right _ (Nat.pow_pos (by decide))).trans
        (Nat.le_add_right _ _)) fits
    rw [extend, if_pos first, ih fits]

theorem extend_spec {n : ℕ} (fits : n < 2 ^ 64) (ds : List Digit) :
    (extend n ds).1 < 2 ^ 64 ∧ (extend n ds).2.length ≤ ds.length ∧
      (extend n ds).1 * 10 ^ (extend n ds).2.length ≤ n * 10 ^ ds.length + Positional.value ds := by
  induction ds generalizing n with
  | nil => simpa [extend] using fits
  | cons d ds ih =>
    rw [extend]
    split
    · next more =>
      obtain ⟨small, few, le⟩ := ih more
      rw [Positional.value_cons]
      exact ⟨small, few.trans (Nat.le_succ _), le⟩
    · exact ⟨fits, Nat.le_refl _, Nat.le_add_right _ _⟩

theorem exists_binaryOf? {l : Literal} (fits : l.whole < 2 ^ 64)
    (low : l.magnitude ≤ Binary64.highest) : ∃ x, binaryOf? l = some x := by
  have whole : extend 0 (Digits.ofNat l.whole) = (l.whole, []) := by
    have all : 0 * 10 ^ (Digits.ofNat l.whole).length + Positional.value (Digits.ofNat l.whole) =
        l.whole := by
      rw [Nat.zero_mul, Nat.zero_add, Digits.value_ofNat]
    have taken := extend_of_fits (all ▸ fits)
    rwa [all] at taken
  obtain ⟨small, few, le⟩ := extend_spec fits l.fraction
  generalize taken : extend l.whole l.fraction = p at small few le
  obtain ⟨significand, dropped⟩ := p
  have read : binaryOf? l = (Binary64.scaled? significand (([] : List Digit).length -
      (l.fraction.length - dropped.length) + l.exponent.getD 0)).bind fun x =>
        some { x with negative := l.negative } := by
    simp only [binaryOf?, whole, taken, Option.bind_eq_bind, Option.pure_def]
  have power : (([] : List Digit).length : ℤ) - (l.fraction.length - dropped.length) +
      l.exponent.getD 0 = dropped.length + (l.exponent.getD 0 - l.fraction.length) := by
    rw [List.length_nil]
    omega
  have below : (significand : ℚ) * 10 ^ (dropped.length + (l.exponent.getD 0 - l.fraction.length)) ≤
      l.magnitude := by
    have cast : (significand : ℚ) * 10 ^ dropped.length ≤
        (l.whole * 10 ^ l.fraction.length + Positional.value l.fraction : ℕ) := by exact_mod_cast le
    rw [zpow_add₀ (by norm_num), zpow_natCast, ← mul_assoc]
    exact mul_le_mul_of_nonneg_right cast (by positivity)
  obtain ⟨x, scaled⟩ := Binary64.exists_scaled? small (below.trans low)
  exact ⟨_, by rw [read, power, scaled, Option.bind_some]⟩

theorem binaryOf?_inRange {l : Literal} {x : Binary64} (h : binaryOf? l = some x) : x.InRange := by
  obtain ⟨y, scaled, h⟩ := Option.bind_eq_some_iff.1 h
  obtain rfl := Option.some.inj h
  obtain ⟨small, low⟩ := Binary64.scaled?_inRange scaled
  exact ⟨small, low⟩

/-- A literal of 64 bits in front of the point that is not one of a whole number, and denotes what a
numeral does. -/
structure Spells (l : Literal) (n : Numeral) : Prop where
  pointed : l.fraction ≠ [] ∨ l.exponent.isSome = true
  fits : l.whole < 2 ^ 64
  magnitude : l.magnitude = n.magnitude

theorem lt_two_pow_of_le {m k : ℕ} (small : m < 10 ^ k) (few : k ≤ 16) : m < 2 ^ 64 :=
  calc m < 10 ^ k := small
    _ ≤ 10 ^ 16 := Nat.pow_le_pow_right (by decide) few
    _ < 2 ^ 64 := by decide

section Spells

variable {n : Numeral} (negative : Bool)

theorem spells_split {k : ℕ} {exponent : Option ℤ} (few : k ≤ 16)
    (pointed : k < n.digits.length ∨ exponent.isSome = true) (le : k ≤ n.digits.length)
    (power : exponent.getD 0 - (n.digits.length - k) = n.power) :
    Spells ⟨negative, Positional.value (n.digits.take k), n.digits.drop k, exponent⟩ n where
  pointed := by
    refine pointed.imp (fun less none => ?_) id
    have length := congrArg List.length none
    rw [List.length_drop, List.length_nil] at length
    omega
  fits := by
    have small := Positional.value_lt_pow (n.digits.take k)
    rw [List.length_take_of_le le] at small
    exact lt_two_pow_of_le small few
  magnitude := by
    have digits : Positional.value (n.digits.take k) * 10 ^ (n.digits.drop k).length +
        Positional.value (n.digits.drop k) = Positional.value n.digits := by
      rw [← Positional.value_append, List.take_append_drop]
    have places : exponent.getD 0 - ((n.digits.drop k).length : ℤ) = n.power := by
      rw [List.length_drop]
      omega
    rw [Literal.magnitude, digits, places, Numeral.magnitude]

theorem spells_zerosBehind (whole : 0 ≤ n.power) (few : (n.digits.length : ℤ) + n.power ≤ 16) :
    Spells ⟨negative, Positional.value n.digits * 10 ^ n.power.natAbs, [0], none⟩ n where
  pointed := .inl (List.cons_ne_nil _ _)
  fits := by
    have small : Positional.value n.digits * 10 ^ n.power.natAbs <
        10 ^ (n.digits.length + n.power.natAbs) := by
      rw [pow_add]
      exact Nat.mul_lt_mul_of_pos_right (Positional.value_lt_pow _) (Nat.pow_pos (by decide))
    exact lt_two_pow_of_le small (by omega)
  magnitude := by
    have power := Binary64.pow_natAbs 10 whole
    simp only [Literal.magnitude, Numeral.magnitude, ← power]
    norm_num [Positional.value]
    ring

theorem spells_zerosBefore (some : n.digits ≠ []) (low : (n.digits.length : ℤ) + n.power ≤ 0) :
    Spells ⟨negative, 0, List.replicate ((n.digits.length : ℤ) + n.power).natAbs 0 ++ n.digits,
      none⟩ n where
  pointed := .inl (List.append_ne_nil_of_right_ne_nil _ some)
  fits := show 0 < 2 ^ 64 by decide
  magnitude := by
    have places : (none : Option ℤ).getD 0 -
        ((List.replicate ((n.digits.length : ℤ) + n.power).natAbs 0 ++ n.digits).length : ℤ) =
          n.power := by
      rw [List.length_append, List.length_replicate, Option.getD_none]
      omega
    rw [Literal.magnitude, places, Positional.value_zeros, Nat.zero_mul, Nat.zero_add,
      Numeral.magnitude]

def numeralLiteral (negative : Bool) (n : Numeral) : Literal :=
  let point : ℤ := n.digits.length + n.power
  if 0 ≤ n.power ∧ point ≤ 16 then
    ⟨negative, Positional.value n.digits * 10 ^ n.power.natAbs, [0], none⟩
  else if 0 < point ∧ point ≤ 16 then
    ⟨negative, Positional.value (n.digits.take point.natAbs), n.digits.drop point.natAbs, none⟩
  else if -5 < point ∧ point ≤ 0 then
    ⟨negative, 0, List.replicate point.natAbs 0 ++ n.digits, none⟩
  else
    ⟨negative, Positional.value (n.digits.take 1), n.digits.drop 1, some (point - 1)⟩

theorem binaryLiteral_eq {x : Binary64} (nonzero : x.mantissa ≠ 0) :
    binaryLiteral x = numeralLiteral x.negative x.shortest :=
  if_neg nonzero

theorem spells_numeralLiteral (some : n.digits ≠ []) : Spells (numeralLiteral negative n) n := by
  have positive := List.length_pos_of_ne_nil some
  unfold numeralLiteral
  dsimp only
  split
  · next whole => exact spells_zerosBehind _ whole.1 whole.2
  · split
    · next inside =>
      refine spells_split _ (by omega) (.inl (by omega)) (by omega) ?_
      rw [Option.getD_none]
      omega
    · split
      · next before => exact spells_zerosBefore _ some before.2
      · refine spells_split _ (by decide) (.inr rfl) positive ?_
        rw [Option.getD_some]
        omega

end Spells

theorem ofLiteral?_of_pointed {l : Literal} (h : l.fraction ≠ [] ∨ l.exponent.isSome = true) :
    ofLiteral? l = (binaryOf? l).map .binary := by
  refine if_neg fun plain => ?_
  rw [Bool.and_eq_true, List.isEmpty_iff, Option.isNone_iff_eq_none] at plain
  obtain some | some := h
  · exact some plain.1
  · rw [plain.2] at some
    contradiction

theorem upperEnd_le_of_le {x : Binary64} {m : ℕ} {e : ℤ} (mantissa : 4 * x.mantissa + 2 ≤ m)
    (exponent : x.exponent ≤ e + 2) : x.upperEnd ≤ m * 2 ^ e := by
  have count : (4 * x.mantissa + 2 : ℚ) ≤ m := by exact_mod_cast mantissa
  have power : (2 : ℚ) ^ (x.exponent - 2) ≤ 2 ^ e := zpow_le_zpow_right₀ one_le_two (by omega)
  exact mul_le_mul count power (zpow_pos two_pos _).le (Nat.cast_nonneg m)

theorem upperEnd_le {x : Binary64} (range : x.InRange)
    (low : x.exponent < Binary64.maxExponent ∨ x.mantissa + 3 < 2 ^ 53) :
    x.upperEnd ≤ Binary64.highest := by
  obtain ⟨small, le⟩ := range
  rw [Binary64.maxExponent] at low le
  have double : (2 : ℚ) ^ (970 : ℤ) = 2 ^ (1 : ℤ) * 2 ^ (969 : ℤ) := zpow_add₀ two_ne_zero 1 969
  have twice : (2 : ℚ) ^ (969 : ℤ) = 2 ^ (1 : ℤ) * 2 ^ (968 : ℤ) := zpow_add₀ two_ne_zero 1 968
  have unit : (0 : ℚ) < 2 ^ (968 : ℤ) := by positivity
  obtain lower | lower := low
  · have bound := upperEnd_le_of_le (x := x) (m := 2 ^ 55 - 2) (e := 968) (by omega) (by omega)
    refine bound.trans ?_
    rw [Binary64.highest, double, twice]
    generalize (2 : ℚ) ^ (968 : ℤ) = u at unit ⊢
    norm_num
    linarith
  · have bound := upperEnd_le_of_le (x := x) (m := 2 ^ 55 - 14) (e := 969) (by omega) (by omega)
    refine bound.trans ?_
    rw [Binary64.highest, double, twice]
    generalize (2 : ℚ) ^ (968 : ℤ) = u
    norm_num
    linarith

theorem binaryOf?_largest (negative : Bool) {m : ℕ}
    (largest : m ∈ [2 ^ 53 - 3, 2 ^ 53 - 2, 2 ^ 53 - 1]) :
    ∃ y, binaryOf? (numeralLiteral negative (Binary64.shortest ⟨negative, m, 971⟩)) = some y := by
  have bounds : ∀ negative, ∀ m ∈ [2 ^ 53 - 3, 2 ^ 53 - 2, 2 ^ 53 - 1],
      let f := Binary64.fraction ⟨negative, m, 971⟩
      f.2 = 1 ∧ 10 ^ 308 ≤ f.1 ∧ f.1 < 10 ^ (308 + 1) := by decide +kernel
  have scaled : ∀ negative, ∀ m ∈ [2 ^ 53 - 3, 2 ^ 53 - 2, 2 ^ 53 - 1],
      (binaryOf? (numeralLiteral negative
        (Binary64.numeralFrom ⟨negative, m, 971⟩ (308 : ℕ)))).isSome = true := by decide +kernel
  obtain ⟨one, low, high⟩ := bounds negative m largest
  rw [Binary64.shortest_eq, one, Binary64.leadingPower_of_bounds low high]
  exact Option.isSome_iff_exists.1 (scaled negative m largest)

theorem exists_ofLiteral?_binaryLiteral {x : Binary64} (range : x.InRange) :
    ∃ y, ofLiteral? (binaryLiteral x) = some (.binary y) := by
  by_cases zero : x.mantissa = 0
  · have highest : (0 : ℚ) ≤ Binary64.highest :=
      mul_nonneg (by norm_num) (zpow_pos two_pos _).le
    have low : (⟨x.negative, 0, [0], none⟩ : Literal).magnitude ≤ Binary64.highest := by
      simpa [Literal.magnitude, Positional.value] using highest
    obtain ⟨y, found⟩ := exists_binaryOf? (show 0 < 2 ^ 64 by decide) low
    rw [binaryLiteral, if_pos zero, ofLiteral?_of_pointed (.inl (List.cons_ne_nil _ _)), found]
    exact ⟨y, rfl⟩
  · obtain ⟨pointed, fits, magnitude⟩ :=
      spells_numeralLiteral x.negative x.shortest_digits_ne_nil
    rw [binaryLiteral_eq zero, ofLiteral?_of_pointed pointed]
    by_cases low : x.exponent < Binary64.maxExponent ∨ x.mantissa + 3 < 2 ^ 53
    · have le := x.magnitude_shortest_le.trans (upperEnd_le range low)
      obtain ⟨y, found⟩ := exists_binaryOf? fits (magnitude ▸ le)
      exact ⟨y, by rw [found, Option.map_some]⟩
    · obtain ⟨negative, mantissa, exponent⟩ := x
      obtain ⟨small, le⟩ := range
      dsimp only at small le low
      obtain rfl : exponent = 971 := by
        rw [Binary64.maxExponent] at le low
        omega
      have largest : mantissa ∈ [2 ^ 53 - 3, 2 ^ 53 - 2, 2 ^ 53 - 1] := by
        simp only [List.mem_cons, List.not_mem_nil, or_false]
        omega
      obtain ⟨y, found⟩ := binaryOf?_largest negative largest
      exact ⟨y, by rw [found, Option.map_some]⟩

theorem eq_of_ofLiteral? {l : Literal} {n : Number} (h : ofLiteral? l = some n) :
    (l.Whole64 ∧ n = .int l.integer) ∨ ∃ x, binaryOf? l = some x ∧ n = .binary x := by
  have binary (h : (binaryOf? l).map .binary = some n) :
      ∃ x, binaryOf? l = some x ∧ n = .binary x := by
    obtain ⟨x, found, rfl⟩ := Option.map_eq_some_iff.1 h
    exact ⟨x, found, rfl⟩
  unfold ofLiteral? at h
  split at h
  · next plain =>
    rw [Bool.and_eq_true, List.isEmpty_iff, Option.isNone_iff_eq_none] at plain
    obtain ⟨noFraction, noExponent⟩ := plain
    split at h
    · next fits =>
      obtain rfl := Option.some.inj h
      simp only [Bool.and_eq_true, Bool.not_eq_true', decide_eq_true_eq] at fits
      simp only [Literal.Whole64, Literal.integer, fits.1, noFraction, noExponent]
      simp
      omega
    · split at h
      · next fits =>
        obtain rfl := Option.some.inj h
        simp only [Bool.and_eq_true, decide_eq_true_eq] at fits
        simp only [Literal.Whole64, Literal.integer, fits.1.1, noFraction, noExponent]
        simp
        omega
      · exact .inr (binary h)
  · exact .inr (binary h)

theorem whole64_of_ofLiteral? {l : Literal} {x : Int} (h : ofLiteral? l = some (.int x)) :
    l.Whole64 ∧ x = l.integer := by
  obtain ⟨whole, same⟩ | ⟨y, -, same⟩ := eq_of_ofLiteral? h
  · exact ⟨whole, Number.int.inj same⟩
  · contradiction

theorem ofLiteral?_ofInt {x : Int} (low : -2 ^ 63 ≤ x) (high : x < 2 ^ 64) :
    ofLiteral? (.ofInt x) = some (.int x) := by
  cases x with
  | ofNat n =>
    have fits : n < 2 ^ 64 := by
      rw [Int.ofNat_eq_natCast] at high
      omega
    exact if_pos (decide_eq_true fits)
  | negSucc n =>
    have fits : n + 1 ≤ 2 ^ 63 := by omega
    have written : Literal.ofInt (Int.negSucc n) = ⟨true, n + 1, [], none⟩ := by
      rw [Literal.ofInt, decide_eq_true (Int.negSucc_lt_zero n)]
      rfl
    rw [written]
    exact if_pos (decide_eq_true fits)

def blur : Number → Number
  | int n => int n
  | binary _ => binary .zero

/-- A number that was read is written so that it is read again, as the same integer or as a binary
number again. -/
theorem exists_ofLiteral?_literal {l : Literal} {n : Number} (h : ofLiteral? l = some n) :
    ∃ m, ofLiteral? n.literal = some m ∧ m.blur = n.blur := by
  obtain ⟨⟨-, -, low, high⟩, rfl⟩ | ⟨x, found, rfl⟩ := eq_of_ofLiteral? h
  · exact ⟨_, ofLiteral?_ofInt low high, rfl⟩
  · obtain ⟨y, read⟩ := exists_ofLiteral?_binaryLiteral (binaryOf?_inRange found)
    exact ⟨_, read, rfl⟩

/-- The digits of `1e-25` are those of a neighbour when they are read again. -/
example : ofLiteral? ⟨false, 1, [], some (-25)⟩ = some (.binary ⟨false, 8711228593176024, -136⟩) ∧
    ofLiteral? (binaryLiteral ⟨false, 8711228593176024, -136⟩) =
      some (.binary ⟨false, 8711228593176025, -136⟩) := by
  decide +kernel

end Number

end Json

end VenueSigner
