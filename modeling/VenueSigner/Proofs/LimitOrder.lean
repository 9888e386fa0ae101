import VenueSigner.Order.Builder
import VenueSigner.Proofs.BaseUnits
import VenueSigner.Proofs.StructEncoding
/-!
Limit orders are priced exactly on the grid. Sizes are cut to hundredths and prices rounded to
ticks, and after that nothing is rounded: the product of the two has no more digits than amounts may
have, and fewer than base units have.
-/

namespace VenueSigner

def Side.tokenLeg (side : Side) (maker taker : Uint64) : Uint64 :=
  match side with
  | .buy => taker
  | .sell => maker

def Side.collateralLeg (side : Side) (maker taker : Uint64) : Uint64 :=
  match side with
  | .buy => maker
  | .sell => taker

/-- The base units of a size whose digits behind the hundredths are cut off. -/
def OrderAmounts.tokenUnits (size : Decimal) : ℤ :=
  10 ^ 4 * ⌊100 * size.toRat⌋

theorem OrderAmounts.cast_tokenUnits (size : Decimal) :
    (tokenUnits size : ℚ) = 10 ^ 4 * ⌊100 * size.toRat⌋ := by
  rw [tokenUnits, Int.cast_mul, Int.cast_pow, Int.cast_ofNat]

theorem OrderAmounts.tokenUnits_nonneg {size : Decimal} (nonneg : 0 ≤ size.toRat) :
    0 ≤ tokenUnits size :=
  mul_nonneg (by decide) (Int.floor_nonneg.2 (by linarith))

theorem OrderAmounts.toRat_tokens (size : Decimal) :
    (size.roundDown 2).toRat * 10 ^ 6 = tokenUnits size := by
  have hundredths : size.toRat * 10 ^ 2 = 100 * size.toRat := by ring
  have cut := size.toRat_roundDown 2
  rw [hundredths] at cut
  rw [cast_tokenUnits, ← cut]
  ring

theorem OrderAmounts.toBaseUnits_tokens {size : Decimal} {u : Uint64} :
    (size.roundDown 2).toBaseUnits = .ok u ↔ (u.val : ℤ) = tokenUnits size := by
  rw [Decimal.toBaseUnits_eq_ok_iff_of_int (toRat_tokens size), eq_comm]

namespace TickSize

variable (t : TickSize) (price : Decimal)

/-- The number of ticks nearest to a price, a half going away from zero. -/
def ticks : ℤ :=
  Rounding.halfAway (price.toRat * 10 ^ t.digits)

theorem digits_le : t.digits ≤ 4 := by
  cases t <;> decide

theorem pow_digits_le : (10 : ℤ) ^ t.digits ≤ 10 ^ 4 :=
  pow_le_pow_right₀ (by decide) t.digits_le

theorem toRat_onGrid :
    (price.roundNearest t.precision.price).toRat * 10 ^ t.digits = t.ticks price :=
  price.toRat_roundNearest t.digits

theorem toRat_decimal : t.decimal.toRat = 1 / 10 ^ t.digits := by
  rw [Decimal.toRat]
  simp [decimal, Decimal.signed]

theorem toRat_highest : t.highest.toRat = (10 ^ t.digits - 1) / 10 ^ t.digits := by
  rw [Decimal.toRat]
  cases t <;> norm_num [highest, Decimal.signed, digits]

theorem admits_iff : t.admits (price.roundNearest t.precision.price) = true ↔
    1 ≤ t.ticks price ∧ t.ticks price ≤ 10 ^ t.digits - 1 := by
  have power : (0 : ℚ) < 10 ^ t.digits := by positivity
  rw [admits, Bool.and_eq_true, Decimal.le_iff, Decimal.le_iff, toRat_decimal, toRat_highest,
    div_le_iff₀ power, le_div_iff₀ power, toRat_onGrid]
  refine and_congr ?_ ?_
  · exact_mod_cast Iff.rfl
  · exact_mod_cast Iff.rfl

end TickSize

namespace OrderAmounts

variable {t : TickSize} {side : Side} {size price : Decimal} {a : OrderAmounts}

theorem ofDecimals_eq_ok_iff {maker taker : Decimal} : ofDecimals side maker taker = .ok a ↔
    a.side = side ∧ maker.toBaseUnits = .ok a.maker ∧ taker.toBaseUnits = .ok a.taker := by
  unfold ofDecimals
  rw [Result.bind_eq_ok]
  constructor
  · rintro ⟨m, given, h⟩
    obtain ⟨u, taken, h⟩ := Result.bind_eq_ok.1 h
    cases h
    exact ⟨rfl, given, taken⟩
  · rintro ⟨rfl, given, taken⟩
    exact ⟨_, given, Result.bind_eq_ok.2 ⟨_, taken, rfl⟩⟩

theorem limit_eq_ok_iff (p : Precision) : limit side size price p = .ok a ↔
    ∃ cost, (size.roundDown p.size).mul (price.roundNearest p.price) = .ok cost ∧ a.side = side ∧
      (size.roundDown p.size).toBaseUnits = .ok (side.tokenLeg a.maker a.taker) ∧
      (p.clamp cost).toBaseUnits = .ok (side.collateralLeg a.maker a.taker) := by
  unfold limit
  rw [Result.bind_eq_ok]
  refine exists_congr fun cost => and_congr_right fun _ => ?_
  cases side with
  | buy =>
    rw [ofDecimals_eq_ok_iff]
    exact and_congr_right fun _ => and_comm
  | sell => rw [ofDecimals_eq_ok_iff]; rfl

theorem mantissa_tokens_lt (nonneg : 0 ≤ tokenUnits size) (room : tokenUnits size < 2 ^ 64) :
    (size.roundDown 2).mantissa < 2 ^ 64 := by
  have scale : (size.roundDown 2).scale ≤ 2 := Decimal.scale_round_le _ _ _
  have bound := Decimal.mantissa_le (Nat.le_trans scale (by decide : 2 ≤ 6))
  have value : |(size.roundDown 2).toRat| * 10 ^ 6 = tokenUnits size := by
    rw [← abs_of_pos (by positivity : (0 : ℚ) < 10 ^ 6), ← abs_mul, toRat_tokens, abs_of_nonneg]
    exact_mod_cast nonneg
  rw [value] at bound
  have least : ((size.roundDown 2).mantissa : ℤ) ≤ tokenUnits size := by exact_mod_cast bound
  omega

/-- What the tokens cost is not rounded: neither is the product, nor does it have too many digits
for an amount. -/
theorem exists_cost (low : 1 ≤ t.ticks price) (high : t.ticks price ≤ 10 ^ t.digits - 1)
    (nonneg : 0 ≤ tokenUnits size) (room : tokenUnits size < 2 ^ 64) :
    ∃ cost,
      (size.roundDown t.precision.size).mul (price.roundNearest t.precision.price) = .ok cost ∧
      t.precision.clamp cost = cost ∧ cost.scale ≤ 6 ∧
      cost.toRat * 10 ^ 6 * 10 ^ t.digits = t.ticks price * tokenUnits size := by
  have few := t.digits_le
  have scaleTokens : (size.roundDown 2).scale ≤ 2 := Decimal.scale_round_le _ _ _
  have scalePrice : (price.roundNearest t.digits).scale ≤ t.digits := Decimal.scale_round_le _ _ _
  have tokens := toRat_tokens size
  have smallTokens := mantissa_tokens_lt nonneg room
  have onGrid := t.toRat_onGrid price
  change (price.roundNearest t.digits).toRat * 10 ^ t.digits = t.ticks price at onGrid
  change ∃ cost, (size.roundDown 2).mul (price.roundNearest t.digits) = .ok cost ∧ _
  generalize size.roundDown 2 = s at tokens scaleTokens smallTokens ⊢
  generalize price.roundNearest t.digits = p at onGrid scalePrice ⊢
  have smallPrice : p.mantissa < 10 ^ 4 := by
    have bound := Decimal.mantissa_le scalePrice
    have value : |p.toRat| * 10 ^ t.digits = t.ticks price := by
      rw [← abs_of_pos (by positivity : (0 : ℚ) < 10 ^ t.digits), ← abs_mul, onGrid, abs_of_nonneg]
      exact_mod_cast (by omega : 0 ≤ t.ticks price)
    rw [value] at bound
    have below : (p.mantissa : ℤ) ≤ t.ticks price := by exact_mod_cast bound
    have power := t.pow_digits_le
    omega
  have smallProduct : s.mantissa * p.mantissa < Decimal.limit :=
    calc s.mantissa * p.mantissa ≤ s.mantissa * 10 ^ 4 := Nat.mul_le_mul_left _ smallPrice.le
      _ < 2 ^ 64 * 10 ^ 4 := Nat.mul_lt_mul_of_pos_right smallTokens (by decide)
      _ < Decimal.limit := by decide
  have places : s.scale + p.scale ≤ t.digits + 2 := by omega
  obtain ⟨cost, product, value, scale⟩ :=
    Decimal.mul?_exact smallProduct (Nat.le_trans places (by change _ ≤ 28; omega))
  refine ⟨cost, ?_, ?_, by omega, ?_⟩
  · rw [Decimal.mul, product]
  · exact Precision.clamp_of_scale_le (Nat.le_trans scale places)
  · rw [value, ← onGrid, ← tokens]
    ring

/-- At a price of the market the amounts of a limit order are exact, if there is room for the
tokens. -/
theorem limit_eq_ok_iff_exact (low : 1 ≤ t.ticks price) (high : t.ticks price ≤ 10 ^ t.digits - 1) :
    limit side size price t.precision = .ok a ↔ a.side = side ∧
      ((side.tokenLeg a.maker a.taker).val : ℤ) = tokenUnits size ∧
      ((side.collateralLeg a.maker a.taker).val : ℤ) * 10 ^ t.digits =
        t.ticks price * tokenUnits size := by
  have collateral (cost : Decimal) (u : Uint64) (few : cost.scale ≤ 6)
      (value : cost.toRat * 10 ^ 6 * 10 ^ t.digits = t.ticks price * tokenUnits size) :
      cost.toBaseUnits = .ok u ↔
        (u.val : ℤ) * 10 ^ t.digits = t.ticks price * tokenUnits size := by
    have power : (10 : ℚ) ^ t.digits ≠ 0 := by positivity
    rw [Decimal.toBaseUnits_eq_ok_iff few, ← mul_left_inj' power, value, eq_comm]
    exact_mod_cast Iff.rfl
  have bounds (u : Uint64) (h : (u.val : ℤ) = tokenUnits size) :
      0 ≤ tokenUnits size ∧ tokenUnits size < 2 ^ 64 := by
    have fits := u.val_lt
    omega
  rw [limit_eq_ok_iff]
  constructor
  · rintro ⟨cost, product, sameSide, given, taken⟩
    have units := toBaseUnits_tokens.1 given
    obtain ⟨nonneg, room⟩ := bounds _ units
    obtain ⟨cost', product', clamped, few, value⟩ := exists_cost low high nonneg room
    rw [product, Except.ok.injEq] at product'
    subst product'
    rw [clamped] at taken
    exact ⟨sameSide, units, (collateral cost _ few value).1 taken⟩
  · rintro ⟨sameSide, units, priced⟩
    obtain ⟨nonneg, room⟩ := bounds _ units
    obtain ⟨cost, product, clamped, few, value⟩ := exists_cost low high nonneg room
    refine ⟨cost, product, sameSide, toBaseUnits_tokens.2 units, ?_⟩
    rw [clamped]
    exact (collateral cost _ few value).2 priced

theorem exists_collateral (low : 1 ≤ t.ticks price) (high : t.ticks price ≤ 10 ^ t.digits - 1)
    (nonneg : 0 ≤ tokenUnits size) (room : tokenUnits size < 2 ^ 64) :
    ∃ v : Uint64, (v.val : ℤ) * 10 ^ t.digits = t.ticks price * tokenUnits size := by
  have power : (10 : ℤ) ^ (4 - t.digits) * 10 ^ t.digits = 10 ^ 4 := by
    rw [← pow_add, Nat.sub_add_cancel t.digits_le]
  have positive : (0 : ℤ) < 10 ^ t.digits := by positivity
  have whole : t.ticks price * (10 ^ (4 - t.digits) * ⌊100 * size.toRat⌋) * 10 ^ t.digits =
      t.ticks price * tokenUnits size := by
    rw [tokenUnits, ← power]
    ring
  generalize t.ticks price * (10 ^ (4 - t.digits) * ⌊100 * size.toRat⌋) = c at whole
  have lower : 0 ≤ c := by
    refine nonneg_of_mul_nonneg_left ?_ positive
    rw [whole]
    exact mul_nonneg (by omega) nonneg
  have upper : c < 2 ^ 64 := by
    refine lt_of_mul_lt_mul_right ?_ positive.le
    calc c * 10 ^ t.digits = t.ticks price * tokenUnits size := whole
      _ ≤ 10 ^ t.digits * tokenUnits size := mul_le_mul_of_nonneg_right (by omega) nonneg
      _ < 10 ^ t.digits * 2 ^ 64 := mul_lt_mul_of_pos_left room positive
      _ = 2 ^ 64 * 10 ^ t.digits := mul_comm _ _
  refine ⟨⟨c.toNat, by omega⟩, ?_⟩
  rw [Int.toNat_of_nonneg lower, whole]

theorem exists_limit (side : Side) (low : 1 ≤ t.ticks price)
    (high : t.ticks price ≤ 10 ^ t.digits - 1) (nonneg : 0 ≤ tokenUnits size)
    (room : tokenUnits size < 2 ^ 64) : ∃ a, limit side size price t.precision = .ok a := by
  obtain ⟨v, priced⟩ := exists_collateral low high nonneg room
  obtain ⟨u, units⟩ : ∃ u : Uint64, (u.val : ℤ) = tokenUnits size :=
    ⟨⟨(tokenUnits size).toNat, by omega⟩, Int.toNat_of_nonneg nonneg⟩
  cases side with
  | buy => exact ⟨⟨.buy, v, u⟩, (limit_eq_ok_iff_exact low high).2 ⟨rfl, units, priced⟩⟩
  | sell => exact ⟨⟨.sell, u, v⟩, (limit_eq_ok_iff_exact low high).2 ⟨rfl, units, priced⟩⟩

end OrderAmounts

theorem Result.checked_eq_ok_iff {α β γ : Type} {check : Result Unit} {x : Result α} {y : Result β}
    {make : α → β → γ} {c : γ} :
    (do check; let a ← x; let b ← y; return make a b) = .ok c ↔
      check = .ok () ∧ ∃ a b, x = .ok a ∧ y = .ok b ∧ c = make a b := by
  rw [bind_eq_ok]
  constructor
  · rintro ⟨_, checked, h⟩
    obtain ⟨a, first, h⟩ := bind_eq_ok.1 h
    obtain ⟨b, second, h⟩ := bind_eq_ok.1 h
    exact ⟨checked, a, b, first, second, (Except.ok.inj h).symm⟩
  · rintro ⟨checked, a, b, first, second, rfl⟩
    exact ⟨(), checked, bind_eq_ok.2 ⟨a, first, bind_eq_ok.2 ⟨b, second, rfl⟩⟩⟩

theorem MarketOptions.checkPrice_eq_ok_iff {o : MarketOptions} {price : Decimal} :
    o.checkPrice price = .ok () ↔
      1 ≤ o.tickSize.ticks price ∧ o.tickSize.ticks price ≤ 10 ^ o.tickSize.digits - 1 := by
  rw [← TickSize.admits_iff, checkPrice]
  split <;> simp_all

namespace OrderBuilder

variable {b : OrderBuilder} {r : LimitRequest} {o : MarketOptions} {salt : Uint64} {order : Order}

theorem limitOrder_eq_ok_iff : b.limitOrder r o salt = .ok order ↔
    o.checkPrice r.price = .ok () ∧ ∃ a tokenId,
      OrderAmounts.limit r.side r.size r.price o.tickSize.precision = .ok a ∧
      Uint256.parse r.tokenId = .ok tokenId ∧
      order = ⟨salt, b.funder, b.signer.address, r.taker, tokenId, a.maker, a.taker, r.expiration,
        r.nonce, r.feeRateBps, a.side, b.signatureKind⟩ := by
  exact Result.checked_eq_ok_iff

theorem sign_eq_ok_iff {tif : TimeInForce} {s : SignedOrder} :
    b.sign order o tif = .ok s ↔ ∃ c digest signature,
      Contracts.ofChain b.signer.chainId o.negRisk = .ok c ∧
      order.signingHash (.exchange b.signer.chainId c.exchange) = .ok digest ∧
      b.signer.key.sign? digest = some signature ∧ s = ⟨order, signature, tif, ""⟩ := by
  constructor
  · intro h
    obtain ⟨_, domain, h⟩ := Result.bind_eq_ok.1 h
    obtain ⟨c, chain, domain⟩ := Result.bind_eq_ok.1 domain
    obtain ⟨digest, hashed, h⟩ := Result.bind_eq_ok.1 h
    obtain ⟨signature, signed, h⟩ := Result.bind_eq_ok.1 h
    rw [← Except.ok.inj domain] at hashed
    exact ⟨c, digest, signature, chain, hashed, Signer.signWord_eq_ok_iff.1 signed,
      (Except.ok.inj h).symm⟩
  · rintro ⟨c, digest, signature, chain, hashed, signed, rfl⟩
    refine Result.bind_eq_ok.2 ⟨_, Result.bind_eq_ok.2 ⟨c, chain, rfl⟩, ?_⟩
    exact Result.bind_eq_ok.2 ⟨digest, hashed, Result.bind_eq_ok.2
      ⟨_, Signer.signWord_eq_ok_iff.2 signed, rfl⟩⟩

theorem order_of_sign {tif : TimeInForce} {s : SignedOrder} (h : b.sign order o tif = .ok s) :
    s.order = order := by
  obtain ⟨_, _, _, _, _, _, rfl⟩ := sign_eq_ok_iff.1 h
  rfl

theorem order_of_createLimit {s : SignedOrder} (h : b.createLimit r o salt = .ok s) :
    b.limitOrder r o salt = .ok s.order := by
  obtain ⟨order, built, signed⟩ := Result.bind_eq_ok.1 h
  rw [built, order_of_sign signed]

/-- With a supported chain only the signature itself can be missing. -/
theorem error_of_sign {tif : TimeInForce} {e : Error}
    (chain : ∃ c, Contracts.ofChain b.signer.chainId o.negRisk = .ok c)
    (h : b.sign order o tif = .error e) : e = .signing ∧ ∃ w, b.signer.key.sign? w = none := by
  obtain ⟨c, supported⟩ := chain
  obtain failed | ⟨domain, _, h⟩ := Result.error_of_bind h
  · obtain failed | ⟨_, _, failed⟩ := Result.error_of_bind failed
    · rw [supported] at failed
      contradiction
    · contradiction
  · obtain failed | ⟨digest, _, h⟩ := Result.error_of_bind h
    · obtain ⟨w, hashed⟩ := order.exists_signingHash domain
      exact absurd (hashed.symm.trans failed) nofun
    · obtain failed | ⟨_, _, h⟩ := Result.error_of_bind h
      · obtain ⟨kind, missing⟩ := Signer.error_of_signWord failed
        exact ⟨kind, digest, missing⟩
      · exact absurd h nofun

/-- A limit order that is created is priced exactly on the grid: its tokens are the size cut to
hundredths, and the collateral is their price at a whole number of ticks, neither cut to the digits
of an amount nor rounded to base units. With a token number that can be read and a supported chain,
nothing else stands in the way than a price off the market, a negative size, too many tokens, or a
signature that cannot be made. -/
theorem createLimit_onGrid (b : OrderBuilder) (r : LimitRequest) (o : MarketOptions)
    (salt : Uint64) :
    let n := o.tickSize.digits
    let k := o.tickSize.ticks r.price
    let units := OrderAmounts.tokenUnits r.size
    (∀ s, b.createLimit r o salt = .ok s →
      s.order.side = r.side ∧ 1 ≤ k ∧ k ≤ 10 ^ n - 1 ∧
        ((r.side.tokenLeg s.order.makerAmount s.order.takerAmount).val : ℤ) = units ∧
        ((r.side.collateralLeg s.order.makerAmount s.order.takerAmount).val : ℤ) * 10 ^ n =
          k * units ∧
        ∃ cost, (r.size.roundDown 2).mul (r.price.roundNearest n) = .ok cost ∧
          o.tickSize.precision.clamp cost = cost ∧
          cost.toRat * 10 ^ 6 =
            (r.side.collateralLeg s.order.makerAmount s.order.takerAmount).val) ∧
      ((∃ tokenId, Uint256.parse r.tokenId = .ok tokenId) →
        (∃ c, Contracts.ofChain b.signer.chainId o.negRisk = .ok c) →
        ∀ e, b.createLimit r o salt = .error e →
          k < 1 ∨ 10 ^ n - 1 < k ∨ r.size.toRat < 0 ∨ 2 ^ 64 ≤ units ∨
            (e = .signing ∧ ∃ w, b.signer.key.sign? w = none)) := by
  intro n k units
  constructor
  · intro s h
    obtain ⟨checked, a, _, amounts, _, order⟩ := limitOrder_eq_ok_iff.1 (order_of_createLimit h)
    obtain ⟨low, high⟩ := MarketOptions.checkPrice_eq_ok_iff.1 checked
    obtain ⟨side, tokens, collateral⟩ := (OrderAmounts.limit_eq_ok_iff_exact low high).1 amounts
    obtain ⟨cost, product, _, _, paid⟩ := (OrderAmounts.limit_eq_ok_iff _).1 amounts
    have fits := (r.side.tokenLeg a.maker a.taker).val_lt
    have nonneg : 0 ≤ OrderAmounts.tokenUnits r.size := by omega
    obtain ⟨cost', product', clamped, few, _⟩ :=
      OrderAmounts.exists_cost low high nonneg (by omega)
    rw [product, Except.ok.injEq] at product'
    subst product'
    rw [clamped, Decimal.toBaseUnits_eq_ok_iff few] at paid
    rw [order]
    exact ⟨side, low, high, tokens, collateral, cost, product, clamped, paid⟩
  · rintro ⟨tokenId, token⟩ chain e h
    -- if nothing else stands in the way there are amounts, and only the signature is left to fail
    by_contra possible
    simp only [not_or, not_lt, not_le] at possible
    obtain ⟨low, high, size, room, signs⟩ := possible
    have nonneg : 0 ≤ units := OrderAmounts.tokenUnits_nonneg size
    obtain ⟨a, amounts⟩ := OrderAmounts.exists_limit r.side low high nonneg room
    have built : b.limitOrder r o salt = .ok _ := limitOrder_eq_ok_iff.2
      ⟨MarketOptions.checkPrice_eq_ok_iff.2 ⟨low, high⟩, a, tokenId, amounts, token, rfl⟩
    rw [createLimit, built] at h
    exact signs (error_of_sign chain h)

end OrderBuilder

end VenueSigner
