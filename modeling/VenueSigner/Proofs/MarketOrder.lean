import VenueSigner.Proofs.DecimalRoom
import VenueSigner.Proofs.LimitOrder
/-!
Market orders give the amount that is asked for, cut to hundredths, and take what it is worth at a
price of the grid. A seller takes exactly that. For a buyer it is a quotient, which is rounded three
times; all the same it is the exact quotient cut to the digits of an amount. Its fraction is a
multiple of one part in as many as there are ticks in the price, so it ends short of the next number
of the grid by more than rounding can add.
-/

namespace VenueSigner

namespace Rounding

theorem sub_floor_mul_le {x : ℚ} {k m : ℤ} (low : 1 ≤ k) (grid : x * k = m) :
    (x - ⌊x⌋) * k ≤ k - 1 := by
  have positive : (0 : ℚ) < k := by exact_mod_cast low
  have short : (x - ⌊x⌋) * k < k := by
    have next := Int.lt_floor_add_one x
    nlinarith
  have whole : (x - ⌊x⌋) * k = ((m - ⌊x⌋ * k : ℤ) : ℚ) := by
    push_cast
    rw [← grid]
    ring
  rw [whole] at short ⊢
  have below : m - ⌊x⌋ * k < k := by exact_mod_cast short
  exact_mod_cast (by omega : m - ⌊x⌋ * k ≤ k - 1)

theorem floor_ceil_eq_floor {x v : ℚ} {k m : ℤ} (low : 1 ≤ k) (high : k < 10 ^ 4) (grid : x * k = m)
    (near : |v - x| * 10 ^ 8 ≤ 1 / 2) : ⌊(⌈v * 10 ^ 4⌉ : ℚ) / 10 ^ 4⌋ = ⌊x⌋ := by
  have close : |v - x| ≤ 1 / (2 * 10 ^ 8) := by
    rw [le_div_iff₀ (by norm_num)]
    linarith
  obtain ⟨least, most⟩ := abs_le.1 close
  have below := Int.floor_le x
  -- the next integer is one `k`-th part away, and there are fewer than ten thousand of them
  have gap : x ≤ ⌊x⌋ + 1 - 1 / (10 ^ 4 - 1) := by
    have parts := sub_floor_mul_le low grid
    have positive : (1 : ℚ) ≤ k := by exact_mod_cast low
    have few : (k : ℚ) ≤ 10 ^ 4 - 1 := by exact_mod_cast (by omega : k ≤ 10 ^ 4 - 1)
    have part : 1 / (10 ^ 4 - 1) ≤ 1 / (k : ℚ) := one_div_le_one_div_of_le (by linarith) few
    have fraction : x - ⌊x⌋ ≤ (k - 1) / k := by
      rwa [le_div_iff₀ (by linarith)]
    rw [sub_div, div_self (by linarith)] at fraction
    linarith
  rw [Int.floor_eq_iff, le_div_iff₀ (by norm_num), div_lt_iff₀ (by norm_num)]
  constructor
  · have lower : ⌊x⌋ * 10 ^ 4 ≤ ⌈v * 10 ^ 4⌉ := by
      rw [← Int.sub_one_lt_iff, Int.lt_ceil]
      push_cast
      linarith
    exact_mod_cast lower
  · have upper : ⌈v * 10 ^ 4⌉ ≤ (⌊x⌋ + 1) * 10 ^ 4 - 1 := by
      rw [Int.ceil_le]
      push_cast
      linarith
    have cast : (⌈v * 10 ^ 4⌉ : ℚ) ≤ (⌊x⌋ + 1) * 10 ^ 4 - 1 := by exact_mod_cast upper
    linarith

theorem cut_bounds (m : ℤ) {k p : ℤ} (posK : 0 < k) (posP : 0 < p) :
    p * ⌊(m : ℚ) / (k * p)⌋ * k ≤ m ∧ m < (p * ⌊(m : ℚ) / (k * p)⌋ + p) * k := by
  have positive : (0 : ℚ) < k * p := by exact_mod_cast mul_pos posK posP
  have below := Int.floor_le ((m : ℚ) / (k * p))
  have above := Int.lt_floor_add_one ((m : ℚ) / (k * p))
  rw [le_div_iff₀ positive] at below
  rw [div_lt_iff₀ positive] at above
  generalize ⌊(m : ℚ) / (k * p)⌋ = q at below above
  have low : q * (k * p) ≤ m := by exact_mod_cast below
  have high : m < (q + 1) * (k * p) := by exact_mod_cast above
  constructor
  · linarith
  · linarith

end Rounding

namespace Decimal.Rounds

variable {d x : ℚ} {places : ℕ}

/-- A number of this size is rounded eight digits behind those of an amount or later, so that it
does not matter when it is cut. -/
theorem floor_ceil_eq {k m : ℤ} (rounds : Rounds d x) (few : places ≤ 6) (nonneg : 0 ≤ x)
    (small : x * 10 ^ places < 2 ^ 64 + 10 ^ 6) (low : 1 ≤ k) (high : k < 10 ^ 4)
    (grid : x * 10 ^ places * k = m) :
    ⌊(⌈d * 10 ^ (places + 4)⌉ : ℚ) / 10 ^ 4⌋ = ⌊x * 10 ^ places⌋ := by
  have behind : places + 7 < maxScale := by
    change _ < 28
    omega
  have fits : 10 * (|x| * 10 ^ (places + 7) + 1) < limit := by
    rw [abs_of_nonneg nonneg, pow_add, ← mul_assoc]
    norm_num [limit]
    linarith
  rw [pow_add, ← mul_assoc]
  refine Rounding.floor_ceil_eq_floor low high grid ?_
  rw [← sub_mul, abs_mul, abs_of_pos (by positivity : (0 : ℚ) < 10 ^ places), mul_assoc, ← pow_add]
  exact rounds.near behind fits

theorem lt_of_floor_ceil_lt (rounds : Rounds d x) (few : places ≤ 6)
    (small : ⌊(⌈d * 10 ^ (places + 4)⌉ : ℚ) / 10 ^ 4⌋ < 2 ^ 64) :
    x * 10 ^ places < 2 ^ 64 + 10 ^ 6 := by
  obtain ⟨last, near, _⟩ := rounds
  have close : |d - x| ≤ 1 / 2 :=
    le_trans (le_mul_of_one_le_right (abs_nonneg _) (one_le_pow₀ (by norm_num))) near
  have unit : (10 : ℚ) ^ places ≤ 10 ^ 6 := pow_le_pow_right₀ (by norm_num) few
  have up : d * 10 ^ places * 10 ^ 4 ≤ ⌈d * 10 ^ (places + 4)⌉ := by
    rw [mul_assoc, ← pow_add]
    exact Int.le_ceil _
  have cut := Int.lt_floor_add_one ((⌈d * 10 ^ (places + 4)⌉ : ℚ) / 10 ^ 4)
  have most : (⌊(⌈d * 10 ^ (places + 4)⌉ : ℚ) / 10 ^ 4⌋ : ℚ) + 1 ≤ 2 ^ 64 := by
    exact_mod_cast small
  rw [div_lt_iff₀ (by norm_num)] at cut
  calc x * 10 ^ places ≤ (d + 1 / 2) * 10 ^ places :=
        mul_le_mul_of_nonneg_right (by linarith [abs_le.1 close]) (by positivity)
    _ < 2 ^ 64 + 10 ^ 6 := by linarith

end Decimal.Rounds

namespace Precision

variable {p : Precision} {d : Decimal}

theorem toRat_mul_million {n : ℤ} (few : p.amount ≤ 6) (whole : d.toRat * 10 ^ p.amount = n) :
    d.toRat * 10 ^ 6 = ((n * 10 ^ (6 - p.amount) : ℤ) : ℚ) := by
  have power : (10 : ℚ) ^ 6 = 10 ^ p.amount * 10 ^ (6 - p.amount) := by
    rw [← pow_add, Nat.add_sub_cancel' few]
  rw [power, ← mul_assoc, whole]
  push_cast
  rfl

theorem lt_of_mul_pow_eq {n : ℤ} {places : ℕ} {u : Uint64} (h : n * 10 ^ places = u.val) :
    n < 2 ^ 64 := by
  by_contra large
  have more : n * 1 ≤ n * 10 ^ places :=
    mul_le_mul_of_nonneg_left (one_le_pow₀ (by decide)) (by omega)
  have room := u.val_lt
  omega

theorem toBaseUnits_clamp_of_rounds {x : ℚ} {k m : ℤ} (few : p.amount ≤ 6)
    (rounds : Decimal.Rounds d.toRat x) (nonneg : 0 ≤ x) (low : 1 ≤ k) (high : k < 10 ^ 4)
    (grid : x * 10 ^ p.amount * k = m) (u : Uint64) :
    (p.clamp d).toBaseUnits = .ok u ↔ ⌊x * 10 ^ p.amount⌋ * 10 ^ (6 - p.amount) = u.val := by
  rw [Decimal.toBaseUnits_eq_ok_iff_of_int (toRat_mul_million few (toRat_clamp p d))]
  constructor
  · intro taken
    have small := rounds.lt_of_floor_ceil_lt few (lt_of_mul_pow_eq taken)
    rwa [rounds.floor_ceil_eq few nonneg small low high grid] at taken
  · intro taken
    have small : x * 10 ^ p.amount < 2 ^ 64 + 10 ^ 6 := by
      have next := Int.lt_floor_add_one (x * 10 ^ p.amount)
      have cast : (⌊x * 10 ^ p.amount⌋ : ℚ) < 2 ^ 64 := by exact_mod_cast lt_of_mul_pow_eq taken
      linarith
    rwa [rounds.floor_ceil_eq few nonneg small low high grid]

end Precision

namespace OrderAmounts

variable {t : TickSize} {side : Side} {amount price : Decimal} {a : OrderAmounts}

/-- What a buyer can take for an amount: the exact quotient, cut to the digits of an amount. -/
def purchase (t : TickSize) (amount price : Decimal) : ℤ :=
  10 ^ (6 - t.precision.amount) *
    ⌊(tokenUnits amount * 10 ^ t.digits : ℚ) / (t.ticks price * 10 ^ (6 - t.precision.amount))⌋

theorem market_sell (p : Precision) :
    market .sell amount price p = limit .sell amount price p :=
  rfl

theorem market_buy_eq_ok_iff (p : Precision) : market .buy amount price p = .ok a ↔
    ∃ quotient, (amount.roundDown p.size).div? (price.roundNearest p.price) = some quotient ∧
      a.side = .buy ∧ (amount.roundDown p.size).toBaseUnits = .ok a.maker ∧
      (p.clamp quotient).toBaseUnits = .ok a.taker := by
  unfold market
  rw [Result.bind_eq_ok]
  simp only [ofDecimals_eq_ok_iff, taken]
  cases (amount.roundDown p.size).div? (price.roundNearest p.price) with
  | none => simp
  | some quotient => simp

theorem toRat_price_ne_zero (low : 1 ≤ t.ticks price) :
    (price.roundNearest t.precision.price).toRat ≠ 0 := by
  intro zero
  have onGrid := t.toRat_onGrid price
  rw [zero, zero_mul] at onGrid
  have none : t.ticks price = 0 := by exact_mod_cast onGrid.symm
  omega

def worth (t : TickSize) (amount price : Decimal) : ℚ :=
  (tokenUnits amount * 10 ^ t.digits : ℚ) / (t.ticks price * 10 ^ 6)

theorem toRat_div_eq_worth (low : 1 ≤ t.ticks price) :
    (amount.roundDown t.precision.size).toRat / (price.roundNearest t.precision.price).toRat =
      worth t amount price := by
  have nonzero := toRat_price_ne_zero low
  have units : (amount.roundDown t.precision.size).toRat * 10 ^ 6 = tokenUnits amount :=
    toRat_tokens amount
  rw [worth, ← units, ← t.toRat_onGrid price]
  field_simp

theorem div?_eq_none_iff_worth (low : 1 ≤ t.ticks price) :
    (amount.roundDown t.precision.size).div? (price.roundNearest t.precision.price) = none ↔
      (Decimal.limit : ℚ) - 1 / 2 ≤ |worth t amount price| := by
  have nonzero : (price.roundNearest t.precision.price).isZero = false := by
    by_contra zero
    rw [Bool.not_eq_false] at zero
    exact toRat_price_ne_zero low (Decimal.toRat_of_isZero zero)
  rw [Decimal.div?_eq_none_iff nonzero, toRat_div_eq_worth low]

theorem abs_worth_lt (low : 1 ≤ t.ticks price) (nonneg : 0 ≤ tokenUnits amount)
    (room : tokenUnits amount < 2 ^ 64) : |worth t amount price| < 2 ^ 64 := by
  have ticks : (1 : ℚ) ≤ t.ticks price := by exact_mod_cast low
  have units : (0 : ℚ) ≤ tokenUnits amount := by exact_mod_cast nonneg
  have fits : (tokenUnits amount : ℚ) < 2 ^ 64 := by exact_mod_cast room
  have grid : (10 : ℚ) ^ t.digits ≤ 10 ^ 6 :=
    pow_le_pow_right₀ (by norm_num) (Nat.le_trans t.digits_le (by decide))
  rw [worth, abs_of_nonneg (by positivity), div_lt_iff₀ (by positivity)]
  calc (tokenUnits amount : ℚ) * 10 ^ t.digits ≤ tokenUnits amount * 10 ^ 6 :=
        mul_le_mul_of_nonneg_left grid units
    _ < 2 ^ 64 * 10 ^ 6 := mul_lt_mul_of_pos_right fits (by norm_num)
    _ ≤ 2 ^ 64 * (t.ticks price * 10 ^ 6) := by
        gcongr
        exact le_mul_of_one_le_left (by norm_num) ticks

theorem exists_quotient (low : 1 ≤ t.ticks price) (nonneg : 0 ≤ tokenUnits amount)
    (room : tokenUnits amount < 2 ^ 64) :
    ∃ quotient, (amount.roundDown t.precision.size).div? (price.roundNearest t.precision.price) =
      some quotient := by
  refine Option.ne_none_iff_exists'.1 fun none => ?_
  have large := (div?_eq_none_iff_worth low).1 none
  have small := abs_worth_lt low nonneg room
  have limit : (Decimal.limit : ℚ) = 2 ^ 96 := by norm_num [Decimal.limit]
  linarith

theorem toRat_worth (low : 1 ≤ t.ticks price) :
    (amount.roundDown t.precision.size).toRat / (price.roundNearest t.precision.price).toRat *
        10 ^ t.precision.amount =
      (tokenUnits amount * 10 ^ t.digits : ℚ) /
        (t.ticks price * 10 ^ (6 - t.precision.amount)) := by
  have six : t.precision.amount ≤ 6 := Nat.add_le_add_right t.digits_le 2
  have power : (10 : ℚ) ^ 6 = 10 ^ t.precision.amount * 10 ^ (6 - t.precision.amount) := by
    rw [← pow_add, Nat.add_sub_cancel' six]
  rw [toRat_div_eq_worth low, worth, power]
  field_simp

/-- Of the quotient, rounded as decimals are and rounded up before it is cut, what remains is what a
buyer can take. -/
theorem toBaseUnits_quotient {quotient : Decimal} {u : Uint64} (low : 1 ≤ t.ticks price)
    (high : t.ticks price ≤ 10 ^ t.digits - 1) (nonneg : 0 ≤ tokenUnits amount)
    (divided : (amount.roundDown t.precision.size).div? (price.roundNearest t.precision.price) =
      some quotient) :
    (t.precision.clamp quotient).toBaseUnits = .ok u ↔ (u.val : ℤ) = purchase t amount price := by
  have few := t.digits_le
  have six : t.precision.amount ≤ 6 := Nat.add_le_add_right few 2
  have last : 6 - t.precision.amount = 4 - t.digits := Nat.add_sub_add_right 4 2 t.digits
  have positive : (0 : ℚ) < t.ticks price := by exact_mod_cast low
  have small : t.ticks price < 10 ^ 4 := by
    have power := t.pow_digits_le
    omega
  have rounds := Decimal.div?_rounds divided
  have worth : _ = (tokenUnits amount * 10 ^ t.digits : ℚ) / _ := toRat_worth low
  generalize (amount.roundDown t.precision.size).toRat /
    (price.roundNearest t.precision.price).toRat = x at worth rounds
  have known : 0 ≤ x := by
    refine nonneg_of_mul_nonneg_left ?_ (by positivity : (0 : ℚ) < 10 ^ t.precision.amount)
    have units : (0 : ℚ) ≤ tokenUnits amount := by exact_mod_cast nonneg
    rw [worth]
    positivity
  have grid : x * 10 ^ t.precision.amount * t.ticks price =
      ((⌊100 * amount.toRat⌋ * 10 ^ (2 * t.digits) : ℤ) : ℚ) := by
    have power : (10 : ℚ) ^ 4 = 10 ^ t.digits * 10 ^ (4 - t.digits) := by
      rw [← pow_add, Nat.add_sub_cancel' few]
    rw [worth, last, cast_tokenUnits, power, two_mul, pow_add]
    push_cast
    field_simp
  rw [Precision.toBaseUnits_clamp_of_rounds six rounds known low small grid u, worth, mul_comm,
    eq_comm]
  rfl

theorem market_buy_eq_ok_iff_exact (low : 1 ≤ t.ticks price)
    (high : t.ticks price ≤ 10 ^ t.digits - 1) :
    market .buy amount price t.precision = .ok a ↔ a.side = .buy ∧
      (a.maker.val : ℤ) = tokenUnits amount ∧ (a.taker.val : ℤ) = purchase t amount price := by
  rw [market_buy_eq_ok_iff]
  constructor
  · rintro ⟨quotient, divided, side, given, taken⟩
    have units := toBaseUnits_tokens.1 given
    exact ⟨side, units, (toBaseUnits_quotient low high (by omega) divided).1 taken⟩
  · rintro ⟨side, units, bought⟩
    have fits := a.maker.val_lt
    have nonneg : 0 ≤ tokenUnits amount := by omega
    obtain ⟨quotient, divided⟩ := exists_quotient low nonneg (by omega)
    exact ⟨quotient, divided, side, toBaseUnits_tokens.2 units,
      (toBaseUnits_quotient low high nonneg divided).2 bought⟩

theorem purchase_bounds (amount : Decimal) (low : 1 ≤ t.ticks price) :
    purchase t amount price * t.ticks price ≤ tokenUnits amount * 10 ^ t.digits ∧
      tokenUnits amount * 10 ^ t.digits <
        (purchase t amount price + 10 ^ (6 - t.precision.amount)) * t.ticks price := by
  have bounds := Rounding.cut_bounds (tokenUnits amount * 10 ^ t.digits)
    (by omega : 0 < t.ticks price) (by positivity : (0 : ℤ) < 10 ^ (6 - t.precision.amount))
  push_cast at bounds
  exact bounds

theorem purchase_nonneg (low : 1 ≤ t.ticks price) (nonneg : 0 ≤ tokenUnits amount) :
    0 ≤ purchase t amount price := by
  have positive : (0 : ℚ) < t.ticks price := by exact_mod_cast low
  have units : (0 : ℚ) ≤ tokenUnits amount := by exact_mod_cast nonneg
  exact mul_nonneg (by positivity) (Int.floor_nonneg.2 (by positivity))

theorem purchase_eq_zero_iff (low : 1 ≤ t.ticks price) (high : t.ticks price ≤ 10 ^ t.digits - 1)
    (nonneg : 0 ≤ tokenUnits amount) : purchase t amount price = 0 ↔ tokenUnits amount = 0 := by
  constructor
  · intro none
    have last : 6 - t.precision.amount = 4 - t.digits := Nat.add_sub_add_right 4 2 t.digits
    have power : (10 : ℤ) ^ (4 - t.digits) * 10 ^ t.digits = 10 ^ 4 := by
      rw [← pow_add, Nat.sub_add_cancel t.digits_le]
    have short := (purchase_bounds amount low).2
    rw [none, zero_add, last] at short
    have few : tokenUnits amount < 10 ^ 4 :=
      calc tokenUnits amount
          ≤ tokenUnits amount * 10 ^ t.digits :=
            le_mul_of_one_le_right nonneg (one_le_pow₀ (by decide))
        _ < 10 ^ (4 - t.digits) * t.ticks price := short
        _ ≤ 10 ^ (4 - t.digits) * 10 ^ t.digits :=
            mul_le_mul_of_nonneg_left (by omega) (by positivity)
        _ = 10 ^ 4 := power
    unfold tokenUnits at nonneg few ⊢
    omega
  · intro none
    rw [purchase, none]
    simp

/-- What a market order gives and takes at a price of the grid: the amount, cut to hundredths, and
what it is worth. A seller takes all of that, as in a limit order of that size. What a buyer takes
is cut to the digits of an amount, so that one unit of its last digit more would cost too much. -/
structure ExactAt (t : TickSize) (amount price : Decimal) (a : OrderAmounts) : Prop where
  lowest : 1 ≤ t.ticks price
  highest : t.ticks price ≤ 10 ^ t.digits - 1
  given : (a.maker.val : ℤ) = tokenUnits amount
  sold : a.side = .sell → limit .sell amount price t.precision = .ok a ∧
    (a.taker.val : ℤ) * 10 ^ t.digits = tokenUnits amount * t.ticks price
  bought : a.side = .buy → (a.taker.val : ℤ) = purchase t amount price ∧
    (a.taker.val : ℤ) * t.ticks price ≤ a.maker.val * 10 ^ t.digits ∧
    (a.maker.val : ℤ) * 10 ^ t.digits <
      (a.taker.val + 10 ^ (6 - t.precision.amount)) * t.ticks price
  empty : a.maker.val = 0 ↔ a.taker.val = 0

theorem exactAt_of_sell (low : 1 ≤ t.ticks price) (high : t.ticks price ≤ 10 ^ t.digits - 1)
    (h : market .sell amount price t.precision = .ok a) :
    a.side = .sell ∧ ExactAt t amount price a := by
  rw [market_sell] at h
  obtain ⟨side, given, taken⟩ := (limit_eq_ok_iff_exact low high).1 h
  change (a.maker.val : ℤ) = tokenUnits amount at given
  change (a.taker.val : ℤ) * 10 ^ t.digits = t.ticks price * tokenUnits amount at taken
  refine ⟨side, low, high, given, fun _ => ⟨h, by rw [taken, mul_comm]⟩, ?_, ?_⟩
  · intro buys
    rw [side] at buys
    contradiction
  · rw [← given] at taken
    have power : (10 : ℤ) ^ t.digits ≠ 0 := by positivity
    constructor
    · intro none
      rw [none, Nat.cast_zero, mul_zero] at taken
      exact_mod_cast (mul_eq_zero.1 taken).resolve_right power
    · intro none
      rw [none, Nat.cast_zero, zero_mul] at taken
      exact_mod_cast (mul_eq_zero.1 taken.symm).resolve_left (by omega)

theorem exactAt_of_buy (low : 1 ≤ t.ticks price) (high : t.ticks price ≤ 10 ^ t.digits - 1)
    (h : market .buy amount price t.precision = .ok a) :
    a.side = .buy ∧ ExactAt t amount price a := by
  obtain ⟨side, given, bought⟩ := (market_buy_eq_ok_iff_exact low high).1 h
  refine ⟨side, low, high, given, ?_, fun _ => ⟨bought, ?_⟩, ?_⟩
  · intro sells
    rw [side] at sells
    contradiction
  · rw [given, bought]
    exact purchase_bounds amount low
  · have none := purchase_eq_zero_iff low high (by omega : 0 ≤ tokenUnits amount)
    rw [← given, ← bought] at none
    exact_mod_cast none.symm

/-- At a price of the market, an amount is traded exactly. -/
theorem market_eq_ok_iff (low : 1 ≤ t.ticks price) (high : t.ticks price ≤ 10 ^ t.digits - 1) :
    market side amount price t.precision = .ok a ↔ a.side = side ∧ ExactAt t amount price a := by
  cases side with
  | buy =>
    refine ⟨exactAt_of_buy low high, ?_⟩
    rintro ⟨side, exact⟩
    exact (market_buy_eq_ok_iff_exact low high).2 ⟨side, exact.given, (exact.bought side).1⟩
  | sell =>
    refine ⟨exactAt_of_sell low high, ?_⟩
    rintro ⟨side, exact⟩
    exact (exact.sold side).1

theorem exists_market (side : Side) (low : 1 ≤ t.ticks price)
    (high : t.ticks price ≤ 10 ^ t.digits - 1) (nonneg : 0 ≤ tokenUnits amount)
    (room : tokenUnits amount < 2 ^ 64)
    (bought : side = .buy → purchase t amount price < 2 ^ 64) :
    ∃ a, market side amount price t.precision = .ok a := by
  cases side with
  | buy =>
    have some := purchase_nonneg low nonneg
    have fits := bought rfl
    have maker : (((tokenUnits amount).toNat : ℕ) : ℤ) = tokenUnits amount :=
      Int.toNat_of_nonneg nonneg
    have taker : (((purchase t amount price).toNat : ℕ) : ℤ) = purchase t amount price :=
      Int.toNat_of_nonneg some
    exact ⟨⟨.buy, ⟨(tokenUnits amount).toNat, by omega⟩,
        ⟨(purchase t amount price).toNat, by omega⟩⟩,
      (market_buy_eq_ok_iff_exact low high).2 ⟨rfl, maker, taker⟩⟩
  | sell =>
    rw [market_sell]
    exact exists_limit .sell low high nonneg room

-- a quotient that does not end, 17.857142…, on a grid whose amounts have four digits
example : (market .buy ⟨false, 10, 0, by decide, by decide⟩ ⟨false, 56, 2, by decide, by decide⟩
    TickSize.hundredth.precision).toOption =
      some ⟨.buy, ⟨10000000, by decide⟩, ⟨17857100, by decide⟩⟩ := by
  decide +kernel

end OrderAmounts

def Order.amounts (order : Order) : OrderAmounts :=
  ⟨order.side, order.makerAmount, order.takerAmount⟩

namespace OrderBuilder

variable {b : OrderBuilder} {r : MarketRequest} {o : MarketOptions} {salt : Uint64} {order : Order}
  {price : Decimal} {levels : List PriceLevel}

theorem marketOrderAt_eq_ok_iff : b.marketOrderAt r o salt price = .ok order ↔
    o.checkPrice price = .ok () ∧ ∃ a tokenId,
      OrderAmounts.market r.side r.amount price o.tickSize.precision = .ok a ∧
      Uint256.parse r.tokenId = .ok tokenId ∧
      order = ⟨salt, b.funder, b.signer.address, r.taker, tokenId, a.maker, a.taker, Uint.zero 64,
        r.nonce, r.feeRateBps, a.side, b.signatureKind⟩ := by
  exact Result.checked_eq_ok_iff

theorem exactAt_of_marketOrderAt (h : b.marketOrderAt r o salt price = .ok order) :
    order.side = r.side ∧ OrderAmounts.ExactAt o.tickSize r.amount price order.amounts := by
  obtain ⟨checked, a, _, amounts, _, rfl⟩ := marketOrderAt_eq_ok_iff.1 h
  obtain ⟨low, high⟩ := MarketOptions.checkPrice_eq_ok_iff.1 checked
  exact (OrderAmounts.market_eq_ok_iff low high).1 amounts

theorem order_of_createMarketFromBook {s : SignedOrder}
    (h : b.createMarketFromBook r o levels salt = .ok s) :
    ∃ price, priceFrom r levels = .ok price ∧ b.marketOrderAt r o salt price = .ok s.order := by
  obtain ⟨price, found, h⟩ := Result.bind_eq_ok.1 h
  obtain ⟨order, built, signed⟩ := Result.bind_eq_ok.1 h
  exact ⟨price, found, by rw [order_of_sign signed, built]⟩

theorem createMarket_eq_createMarketFromBook (given : r.price = some price)
    (levels : List PriceLevel) :
    b.createMarket r o salt = b.createMarketFromBook r o levels salt := by
  rw [createMarket, createMarketFromBook, priceFrom, given]
  rfl

theorem exactAt_of_createMarketFromBook {s : SignedOrder}
    (h : b.createMarketFromBook r o levels salt = .ok s) : s.order.side = r.side ∧
      ∃ price, priceFrom r levels = .ok price ∧
        OrderAmounts.ExactAt o.tickSize r.amount price s.order.amounts := by
  obtain ⟨price, found, built⟩ := order_of_createMarketFromBook h
  obtain ⟨side, exact⟩ := exactAt_of_marketOrderAt built
  exact ⟨side, price, found, exact⟩

/-- A market order that is created has the exact amounts at the price of its request or, without
one, at the price that the book gives. With a price, a token number that can be read and a supported
chain, nothing else stands in the way than a price off the market, a negative amount, one that there
is no room for or that buys too much, or a signature that cannot be made. -/
theorem createMarket_exactAt (b : OrderBuilder) (r : MarketRequest) (o : MarketOptions)
    (levels : List PriceLevel) (salt : Uint64) :
    (∀ s, b.createMarket r o salt = .ok s → s.order.side = r.side ∧
      ∃ price, r.price = some price ∧
        OrderAmounts.ExactAt o.tickSize r.amount price s.order.amounts) ∧
    (∀ s, b.createMarketFromBook r o levels salt = .ok s → s.order.side = r.side ∧
      ∃ price, priceFrom r levels = .ok price ∧
        OrderAmounts.ExactAt o.tickSize r.amount price s.order.amounts) ∧
    ∀ price, priceFrom r levels = .ok price →
      (∃ tokenId, Uint256.parse r.tokenId = .ok tokenId) →
      (∃ c, Contracts.ofChain b.signer.chainId o.negRisk = .ok c) →
      ∀ e, b.createMarketFromBook r o levels salt = .error e →
        o.tickSize.ticks price < 1 ∨ 10 ^ o.tickSize.digits - 1 < o.tickSize.ticks price ∨
          r.amount.toRat < 0 ∨ 2 ^ 64 ≤ OrderAmounts.tokenUnits r.amount ∨
          (r.side = .buy ∧ 2 ^ 64 ≤ OrderAmounts.purchase o.tickSize r.amount price) ∨
          (e = .signing ∧ ∃ w, b.signer.key.sign? w = none) := by
  refine ⟨?_, fun _ => exactAt_of_createMarketFromBook, ?_⟩
  · intro s h
    cases given : r.price with
    | none =>
      rw [createMarket, given] at h
      contradiction
    | some price =>
      rw [createMarket_eq_createMarketFromBook given levels] at h
      obtain ⟨side, found, priced, exact⟩ := exactAt_of_createMarketFromBook h
      rw [priceFrom, given, Except.ok.injEq] at priced
      exact ⟨side, price, rfl, priced ▸ exact⟩
  · rintro price found ⟨tokenId, token⟩ chain e h
    by_contra possible
    simp only [not_or, not_lt, not_le, not_and] at possible
    obtain ⟨low, high, amount, room, bought, signs⟩ := possible
    have nonneg := OrderAmounts.tokenUnits_nonneg amount
    obtain ⟨a, amounts⟩ := OrderAmounts.exists_market r.side low high nonneg room bought
    have built : b.marketOrderAt r o salt price = .ok _ := marketOrderAt_eq_ok_iff.2
      ⟨MarketOptions.checkPrice_eq_ok_iff.2 ⟨low, high⟩, a, tokenId, amounts, token, rfl⟩
    obtain failed | ⟨_, same, h⟩ := Result.error_of_bind h
    · rw [found] at failed
      contradiction
    · rw [found, Except.ok.injEq] at same
      subst same
      rw [built] at h
      obtain ⟨kind, missing⟩ := error_of_sign chain h
      exact signs kind missing

end OrderBuilder

end VenueSigner
