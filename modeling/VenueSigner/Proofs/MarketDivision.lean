import VenueSigner.Proofs.MarketOrder
import VenueSigner.Proofs.Meaning
/-!
Divisions in market orders. The divisor is never zero, since it is a price that was accepted; there
can be no room for the quotient. It takes an amount that is out of range anyway, but a buyer then
has the error of a price that cannot be divided by, where a seller has an overflow.
-/

namespace VenueSigner

open Result (FailsOnly failsOnly_ok failsOnly_error)

def Error.Divides (e : Error) : Prop :=
  ∃ p, e = .cannotDivide p

theorem Error.not_divides_of_kind {e : Error} (h : e.kind = .numericOverflow) : ¬ e.Divides := by
  rintro ⟨p, rfl⟩
  contradiction

namespace Decimal

theorem failsOnly_mul (a b : Decimal) : FailsOnly (·.kind = .numericOverflow) (a.mul b) := by
  unfold mul
  split
  · exact failsOnly_ok _
  · exact failsOnly_error rfl

end Decimal

namespace OrderAmounts

variable {t : TickSize} {side : Side} {amount price : Decimal}

theorem tokenUnits_neg_iff : tokenUnits amount < 0 ↔ amount.toRat < 0 := by
  have cut : ⌊100 * amount.toRat⌋ < 0 ↔ amount.toRat < 0 := by
    rw [Int.floor_lt, Int.cast_zero]
    constructor <;> intro <;> linarith
  rw [← cut, tokenUnits]
  omega

/-- There is no room for what a buyer would take, even before it is cut. -/
def Undividable (t : TickSize) (side : Side) (amount price : Decimal) : Prop :=
  side = .buy ∧ (Decimal.limit : ℚ) - 1 / 2 ≤ |worth t amount price|

def OutOfRange (amount : Decimal) : Prop :=
  amount.toRat < 0 ∨ 2 ^ 64 ≤ tokenUnits amount

theorem Undividable.outOfRange (h : Undividable t side amount price) (low : 1 ≤ t.ticks price) :
    OutOfRange amount := by
  by_contra fits
  rw [OutOfRange, ← tokenUnits_neg_iff, not_or, not_lt, not_le] at fits
  have small := abs_worth_lt low fits.1 fits.2
  have limit : (Decimal.limit : ℚ) = 2 ^ 96 := by norm_num [Decimal.limit]
  have large := h.2
  linarith

theorem failsOnly_ofDecimals (side : Side) (maker taker : Decimal) :
    FailsOnly (·.kind = .numericOverflow) (ofDecimals side maker taker) :=
  FailsOnly.bind (fun _ => Decimal.kind_of_toBaseUnits_error) fun _ =>
    FailsOnly.bind (fun _ => Decimal.kind_of_toBaseUnits_error) fun _ => failsOnly_ok _

theorem market_of_undividable (low : 1 ≤ t.ticks price) (h : Undividable t side amount price) :
    market side amount price t.precision =
      .error (.cannotDivide (price.roundNearest t.precision.price)) := by
  obtain ⟨rfl, large⟩ := h
  have none := (div?_eq_none_iff_worth low).2 large
  simp only [market, taken, none]
  rfl

theorem failsOnly_market (low : 1 ≤ t.ticks price) (h : ¬ Undividable t side amount price) :
    FailsOnly (·.kind = .numericOverflow) (market side amount price t.precision) := by
  refine FailsOnly.bind ?_ fun _ => failsOnly_ofDecimals side _ _
  cases side with
  | sell => exact Decimal.failsOnly_mul _ _
  | buy =>
    have room := (div?_eq_none_iff_worth low).not.2 fun large => h ⟨rfl, large⟩
    obtain ⟨quotient, divided⟩ := Option.ne_none_iff_exists'.1 room
    simp only [taken, divided]
    exact failsOnly_ok quotient

theorem market_eq_cannotDivide_iff (low : 1 ≤ t.ticks price) (p : Decimal) :
    market side amount price t.precision = .error (.cannotDivide p) ↔
      Undividable t side amount price ∧ price.roundNearest t.precision.price = p := by
  by_cases large : Undividable t side amount price
  · rw [market_of_undividable low large]
    simp [large]
  · refine iff_of_false (fun failed => ?_) fun h => large h.1
    exact Error.not_divides_of_kind (failsOnly_market low large _ failed) ⟨p, rfl⟩

theorem exists_error_of_outOfRange (side : Side) (low : 1 ≤ t.ticks price)
    (high : t.ticks price ≤ 10 ^ t.digits - 1) (out : OutOfRange amount) :
    ∃ e, market side amount price t.precision = .error e := by
  cases result : market side amount price t.precision with
  | error e => exact ⟨e, rfl⟩
  | ok a =>
    have units := ((market_eq_ok_iff low high).1 result).2.given
    have room := a.maker.val_lt
    rw [OutOfRange, ← tokenUnits_neg_iff] at out
    omega

end OrderAmounts

theorem MarketOptions.failsOnly_checkPrice (o : MarketOptions) (price : Decimal) :
    FailsOnly (¬ ·.Divides) (o.checkPrice price) := by
  unfold checkPrice
  split
  · exact failsOnly_ok ()
  · exact failsOnly_error nofun

namespace PriceLevel

theorem failsOnly_contribution (side : Side) (l : PriceLevel) :
    FailsOnly (·.kind = .numericOverflow) (l.contribution side) := by
  cases side with
  | buy => exact Decimal.failsOnly_mul _ _
  | sell => exact failsOnly_ok _

theorem failsOnly_reaching? (side : Side) (target sum : Decimal) (levels : List PriceLevel) :
    FailsOnly (·.kind = .numericOverflow) (reaching? side target sum levels) := by
  induction levels generalizing sum with
  | nil => exact failsOnly_ok none
  | cons l rest ih =>
    refine (failsOnly_contribution side l).bind fun filled => ?_
    split
    · exact failsOnly_error rfl
    · split
      · exact failsOnly_ok _
      · exact ih _

theorem failsOnly_marketPrice (side : Side) (levels : List PriceLevel) (target : Decimal)
    (tif : TimeInForce) : FailsOnly (¬ ·.Divides) (marketPrice side levels target tif) := by
  unfold marketPrice
  split
  · exact failsOnly_error nofun
  · refine FailsOnly.bind (fun e failed => ?_) fun found => ?_
    · exact Error.not_divides_of_kind (failsOnly_reaching? side target .zero levels e failed)
    · split
      · exact failsOnly_ok _
      · split
        · exact failsOnly_error nofun
        · exact failsOnly_ok _

end PriceLevel

namespace OrderBuilder

open OrderAmounts (Undividable OutOfRange)

variable {b : OrderBuilder} {r : MarketRequest} {o : MarketOptions} {salt : Uint64}
  {price : Decimal} {levels : List PriceLevel}

theorem failsOnly_sign (b : OrderBuilder) (order : Order) (o : MarketOptions) (tif : TimeInForce) :
    FailsOnly (¬ ·.Divides) (b.sign order o tif) := by
  have contracts : FailsOnly (¬ ·.Divides) (Contracts.ofChain b.signer.chainId o.negRisk) := by
    unfold Contracts.ofChain
    split
    · exact failsOnly_ok _
    · split
      · exact failsOnly_ok _
      · exact failsOnly_error nofun
  refine (contracts.bind fun _ => failsOnly_ok _).bind fun domain => ?_
  obtain ⟨w, hashed⟩ := order.exists_signingHash domain
  rw [hashed]
  refine (failsOnly_ok w).bind fun digest => FailsOnly.bind (fun e failed => ?_) fun _ =>
    failsOnly_ok _
  rw [(Signer.error_of_signWord failed).1]
  exact nofun

theorem failsOnly_priceFrom (r : MarketRequest) (levels : List PriceLevel) :
    FailsOnly (¬ ·.Divides) (priceFrom r levels) := by
  unfold priceFrom
  split
  · exact failsOnly_ok _
  · exact PriceLevel.failsOnly_marketPrice _ _ _ _

def createMarketAt (b : OrderBuilder) (r : MarketRequest) (o : MarketOptions) (salt : Uint64)
    (price : Decimal) : Result SignedOrder := do
  b.sign (← b.marketOrderAt r o salt price) o r.timeInForce

theorem createMarketAt_of_market {e : Error} (checked : o.checkPrice price = .ok ())
    (failed : OrderAmounts.market r.side r.amount price o.tickSize.precision = .error e) :
    b.createMarketAt r o salt price = .error e := by
  rw [createMarketAt, marketOrderAt, checked, failed]
  rfl

theorem createMarketAt_eq_cannotDivide_iff (p : Decimal) :
    b.createMarketAt r o salt price = .error (.cannotDivide p) ↔ o.checkPrice price = .ok () ∧
      Undividable o.tickSize r.side r.amount price ∧
        price.roundNearest o.tickSize.precision.price = p := by
  constructor
  · intro failed
    obtain failed | ⟨order, _, failed⟩ := Result.error_of_bind failed
    · obtain failed | ⟨_, checked, failed⟩ := Result.error_of_bind failed
      · exact absurd ⟨p, rfl⟩ (o.failsOnly_checkPrice price _ failed)
      · obtain failed | ⟨a, _, failed⟩ := Result.error_of_bind failed
        · have low := (MarketOptions.checkPrice_eq_ok_iff.1 checked).1
          exact ⟨checked, (OrderAmounts.market_eq_cannotDivide_iff low p).1 failed⟩
        · have token : FailsOnly (¬ ·.Divides) (Uint256.parse r.tokenId) :=
            Uint256.failsOnly_parse (fun _ => nofun) (fun _ => nofun) (fun _ => nofun) _
          exact absurd ⟨p, rfl⟩ (token.bind (fun _ => failsOnly_ok _) _ failed)
    · exact absurd ⟨p, rfl⟩ (b.failsOnly_sign order o r.timeInForce _ failed)
  · rintro ⟨checked, large⟩
    have low := (MarketOptions.checkPrice_eq_ok_iff.1 checked).1
    exact createMarketAt_of_market checked ((OrderAmounts.market_eq_cannotDivide_iff low p).2 large)

theorem createMarketAt_of_outOfRange (checked : o.checkPrice price = .ok ())
    (out : OutOfRange r.amount) : ∃ e, b.createMarketAt r o salt price = .error e ∧
      (¬ Undividable o.tickSize r.side r.amount price → e.kind = .numericOverflow) := by
  obtain ⟨low, high⟩ := MarketOptions.checkPrice_eq_ok_iff.1 checked
  obtain ⟨e, failed⟩ := OrderAmounts.exists_error_of_outOfRange r.side low high out
  refine ⟨e, createMarketAt_of_market checked failed, fun room => ?_⟩
  exact OrderAmounts.failsOnly_market low room e failed

/-- What goes wrong with an amount, at a price that is found and accepted. That the price cannot be
divided by is reported when there is no room for the quotient; all else about an amount that is out
of range is an overflow. -/
structure Reports (r : MarketRequest) (o : MarketOptions) (found : Decimal → Prop)
    (result : Result SignedOrder) : Prop where
  divides : ∀ p, result = .error (.cannotDivide p) ↔ ∃ price, found price ∧
    o.checkPrice price = .ok () ∧ Undividable o.tickSize r.side r.amount price ∧
      price.roundNearest o.tickSize.precision.price = p
  overflows : ∀ price, found price → o.checkPrice price = .ok () → OutOfRange r.amount →
    ∃ e, result = .error e ∧
      (¬ Undividable o.tickSize r.side r.amount price → e.kind = .numericOverflow)

theorem reports_createMarket (b : OrderBuilder) (r : MarketRequest) (o : MarketOptions)
    (salt : Uint64) : Reports r o (r.price = some ·) (b.createMarket r o salt) := by
  cases given : r.price with
  | none =>
    have missing : b.createMarket r o salt = .error .priceMissing := by
      rw [createMarket, given]
    constructor
    · intro p
      rw [missing]
      simp
    · intro price found
      contradiction
  | some price =>
    have made : b.createMarket r o salt = b.createMarketAt r o salt price := by
      rw [createMarket, given]
      rfl
    rw [made]
    constructor
    · intro p
      rw [createMarketAt_eq_cannotDivide_iff]
      simp
    · rintro _ ⟨⟩ checked out
      exact createMarketAt_of_outOfRange checked out

theorem reports_createMarketFromBook (b : OrderBuilder) (r : MarketRequest) (o : MarketOptions)
    (levels : List PriceLevel) (salt : Uint64) :
    Reports r o (priceFrom r levels = .ok ·) (b.createMarketFromBook r o levels salt) := by
  change Reports r o _ (priceFrom r levels >>= fun price => b.createMarketAt r o salt price)
  cases found : priceFrom r levels with
  | error e =>
    refine ⟨fun p => iff_of_false (fun failed => ?_) nofun, nofun⟩
    obtain rfl := Except.error.inj failed
    exact failsOnly_priceFrom r levels _ found ⟨p, rfl⟩
  | ok price =>
    constructor
    · intro p
      change b.createMarketAt r o salt price = _ ↔ _
      rw [createMarketAt_eq_cannotDivide_iff]
      simp
    · rintro _ ⟨⟩ checked out
      exact createMarketAt_of_outOfRange checked out

/-- Market orders whose price is accepted report that it cannot be divided by just when there is no
room for what a buyer would take, whether the price is that of the request or that of the book. The
price is not zero then; it is the amount that is out of range. All other amounts out of range are
overflows. -/
theorem createMarket_reports (b : OrderBuilder) (r : MarketRequest) (o : MarketOptions)
    (levels : List PriceLevel) (salt : Uint64) :
    Reports r o (r.price = some ·) (b.createMarket r o salt) ∧
    Reports r o (priceFrom r levels = .ok ·) (b.createMarketFromBook r o levels salt) ∧
    ∀ price, o.checkPrice price = .ok () →
      (price.roundNearest o.tickSize.precision.price).toRat ≠ 0 ∧
        (Undividable o.tickSize r.side r.amount price → OutOfRange r.amount) := by
  refine ⟨reports_createMarket b r o salt, reports_createMarketFromBook b r o levels salt, ?_⟩
  intro price checked
  have low := (MarketOptions.checkPrice_eq_ok_iff.1 checked).1
  exact ⟨OrderAmounts.toRat_price_ne_zero low, fun large => large.outOfRange low⟩

def spendMost : MarketRequest where
  tokenId := "1"
  amount := ⟨false, 2 ^ 96 - 1, 0, by decide, Decimal.zero.scale_le⟩
  side := .buy
  price := some TickSize.tenth.decimal
  timeInForce := .fillOrKill
  feeRateBps := Uint.zero 64
  nonce := Uint.zero 64
  taker := Address.zero

/-- The price is accepted and the amount is too large for base units, but it is the price that is
reported. -/
theorem createMarket_spendMost :
    spendMost.price = some TickSize.tenth.decimal ∧
      (⟨.hundredth, false⟩ : MarketOptions).checkPrice TickSize.tenth.decimal = .ok () ∧
      OutOfRange spendMost.amount ∧
      (∀ (b : OrderBuilder) (salt : Uint64),
        b.createMarket spendMost ⟨.hundredth, false⟩ salt =
          .error (.cannotDivide TickSize.tenth.decimal)) ∧
      (Error.cannotDivide TickSize.tenth.decimal).kind = .invalidValue := by
  have checked : (⟨.hundredth, false⟩ : MarketOptions).checkPrice TickSize.tenth.decimal = .ok () :=
    Result.eq_ok_of_toOption (by decide +kernel)
  have large : 2 ^ 64 ≤ OrderAmounts.tokenUnits spendMost.amount := by
    norm_num [OrderAmounts.tokenUnits, spendMost, Decimal.toRat, Decimal.signed]
  have none : (spendMost.amount.roundDown 2).div? TickSize.tenth.decimal = none := by
    decide +kernel
  have onGrid : TickSize.tenth.decimal.roundNearest 2 = TickSize.tenth.decimal := by
    decide +kernel
  have failed : OrderAmounts.market .buy spendMost.amount TickSize.tenth.decimal
      TickSize.hundredth.precision = .error (.cannotDivide TickSize.tenth.decimal) := by
    change (OrderAmounts.taken .buy (spendMost.amount.roundDown 2)
      (TickSize.tenth.decimal.roundNearest 2) >>= _) = _
    simp only [OrderAmounts.taken, onGrid, none]
    rfl
  exact ⟨rfl, checked, .inr large, fun b salt => createMarketAt_of_market checked failed, rfl⟩

end OrderBuilder

end VenueSigner
