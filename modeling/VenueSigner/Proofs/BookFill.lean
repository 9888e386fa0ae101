import VenueSigner.Proofs.BookDepth
import VenueSigner.Proofs.MarketOrder
/-!
A market order that must be filled, priced from a book, can be filled by that book. The walk over
the book counts money for a buyer and tokens for a seller; the levels it takes trade at the limit or
better, so that they hold the tokens of the order, and its collateral covers what they cost.
-/

namespace VenueSigner

def Side.accepts (side : Side) (limit price : ℚ) : Bool :=
  match side with
  | .buy => price ≤ limit
  | .sell => limit ≤ price

theorem Side.accepts_refl (side : Side) (price : ℚ) : side.accepts price price = true := by
  cases side <;> simp [accepts]

namespace PriceLevel

variable {side : Side} {limit wanted : ℚ} {levels taken rest : List PriceLevel}

def tokens (levels : List PriceLevel) : ℚ :=
  (levels.map (·.size.toRat)).sum

/-- The collateral that changes hands for some tokens, one level after the other. -/
def collateralFor (wanted : ℚ) : List PriceLevel → ℚ
  | [] => 0
  | l :: rest => min wanted l.size.toRat * l.price.toRat +
    collateralFor (wanted - min wanted l.size.toRat) rest

/-- One side of a book as the venue lists it: prices on the grid, best first. -/
structure Listed (t : TickSize) (side : Side) (levels : List PriceLevel) : Prop where
  onGrid : ∀ l ∈ levels, ∃ k : ℤ, l.price.toRat * 10 ^ t.digits = k
  sizes : ∀ l ∈ levels, 0 ≤ l.size.toRat
  bestFirst : levels.Pairwise fun better l => side.accepts l.price.toRat better.price.toRat

structure Ranked (side : Side) (levels : List PriceLevel) : Prop where
  sizes : ∀ l ∈ levels, 0 ≤ l.size.toRat
  bestFirst : levels.Pairwise fun better l => side.accepts l.price.toRat better.price.toRat

theorem Listed.ranked {t : TickSize} (listed : Listed t side levels) : Ranked side levels :=
  ⟨listed.sizes, listed.bestFirst⟩

def tradable (side : Side) (limit : ℚ) (levels : List PriceLevel) : List PriceLevel :=
  levels.filter fun l => side.accepts limit l.price.toRat

/-- The levels at which an order with a limit trades hold its tokens. Best first, they cost a buyer
no more than the collateral, and yield a seller no less. -/
structure Fills (side : Side) (limit : ℚ) (levels : List PriceLevel) (wanted collateral : ℚ) :
    Prop where
  enough : wanted ≤ tokens (tradable side limit levels)
  cost : side = .buy → collateralFor wanted (tradable side limit levels) ≤ collateral
  proceeds : side = .sell → collateral ≤ collateralFor wanted (tradable side limit levels)

@[simp]
theorem tokens_cons (l : PriceLevel) : tokens (l :: levels) = l.size.toRat + tokens levels := by
  simp [tokens]

@[simp]
theorem tokens_append : tokens (taken ++ rest) = tokens taken + tokens rest := by
  simp [tokens]

theorem tokens_nonneg (sizes : ∀ l ∈ levels, 0 ≤ l.size.toRat) : 0 ≤ tokens levels := by
  apply List.sum_nonneg
  simpa using sizes

theorem collateralFor_le (sizes : ∀ l ∈ levels, 0 ≤ l.size.toRat)
    (prices : ∀ l ∈ levels, l.price.toRat ≤ limit) (positive : 0 ≤ limit) (some : 0 ≤ wanted) :
    collateralFor wanted levels ≤ limit * wanted := by
  -- the first level gives what it has, and the others what is still wanted then
  induction levels generalizing wanted with
  | nil => exact mul_nonneg positive some
  | cons l rest ih =>
    simp only [List.mem_cons, forall_eq_or_imp] at sizes prices
    have part : 0 ≤ min wanted l.size.toRat := le_min some sizes.1
    have left : 0 ≤ wanted - min wanted l.size.toRat := sub_nonneg.2 (min_le_left _ _)
    calc collateralFor wanted (l :: rest)
        = min wanted l.size.toRat * l.price.toRat +
            collateralFor (wanted - min wanted l.size.toRat) rest := rfl
      _ ≤ min wanted l.size.toRat * limit + limit * (wanted - min wanted l.size.toRat) :=
          add_le_add (mul_le_mul_of_nonneg_left prices.1 part) (ih sizes.2 prices.2 left)
      _ = limit * wanted := by ring

theorem le_collateralFor (sizes : ∀ l ∈ levels, 0 ≤ l.size.toRat)
    (prices : ∀ l ∈ levels, limit ≤ l.price.toRat) (some : 0 ≤ wanted)
    (enough : wanted ≤ tokens levels) : limit * wanted ≤ collateralFor wanted levels := by
  induction levels generalizing wanted with
  | nil =>
    have none : wanted = 0 := le_antisymm enough some
    rw [none, mul_zero]
    rfl
  | cons l rest ih =>
    simp only [List.mem_cons, forall_eq_or_imp] at sizes prices
    rw [tokens_cons] at enough
    have part : 0 ≤ min wanted l.size.toRat := le_min some sizes.1
    have left : 0 ≤ wanted - min wanted l.size.toRat := sub_nonneg.2 (min_le_left _ _)
    have held : wanted - min wanted l.size.toRat ≤ tokens rest := by
      have nonneg := tokens_nonneg sizes.2
      obtain all | some := min_choice wanted l.size.toRat
      · linarith
      · linarith
    calc limit * wanted
        = min wanted l.size.toRat * limit + limit * (wanted - min wanted l.size.toRat) := by ring
      _ ≤ min wanted l.size.toRat * l.price.toRat +
            collateralFor (wanted - min wanted l.size.toRat) rest :=
          add_le_add (mul_le_mul_of_nonneg_left prices.1 part) (ih sizes.2 prices.2 left held)
      _ = collateralFor wanted (l :: rest) := rfl

theorem depth_buy_le (sizes : ∀ l ∈ levels, 0 ≤ l.size.toRat)
    (prices : ∀ l ∈ levels, l.price.toRat ≤ limit) :
    depth .buy levels ≤ limit * tokens levels := by
  induction levels with
  | nil => simp [depth, tokens]
  | cons l rest ih =>
    simp only [List.mem_cons, forall_eq_or_imp] at sizes prices
    rw [depth_cons, tokens_cons, mul_add]
    exact add_le_add (mul_le_mul_of_nonneg_right prices.1 sizes.1) (ih sizes.2 prices.2)

theorem depth_sell (levels : List PriceLevel) : depth .sell levels = tokens levels := rfl

theorem mem_tradable {l : PriceLevel} : l ∈ tradable side limit levels ↔
    l ∈ levels ∧ side.accepts limit l.price.toRat = true :=
  List.mem_filter

theorem tokens_le_tradable (sizes : ∀ l ∈ taken ++ rest, 0 ≤ l.size.toRat)
    (prices : ∀ l ∈ taken, side.accepts limit l.price.toRat) :
    tokens taken ≤ tokens (tradable side limit (taken ++ rest)) := by
  rw [tradable, List.filter_append, List.filter_eq_self.2 prices, tokens_append]
  refine le_add_of_nonneg_right (tokens_nonneg fun l mem => sizes l ?_)
  exact List.mem_append_right _ (List.mem_of_mem_filter mem)

theorem Ranked.accepts_upTo {l : PriceLevel} (ranked : Ranked side (taken ++ l :: rest)) :
    ∀ x ∈ taken ++ [l], side.accepts l.price.toRat x.price.toRat := by
  have ordered := (List.pairwise_append.1 ranked.bestFirst).2.2
  intro x mem
  obtain before | last := List.mem_append.1 mem
  · exact ordered x before l List.mem_cons_self
  · rw [List.mem_singleton.1 last]
    exact side.accepts_refl l.price.toRat

/-- What is reached at a level for the money of a buyer, or for the tokens of a seller, can be
traded at its price. -/
theorem Listed.fills {t : TickSize} {l : PriceLevel} {collateral : ℚ}
    (listed : Listed t side (taken ++ l :: rest)) (positive : 0 < l.price.toRat) (some : 0 ≤ wanted)
    (bought : side = .buy → l.price.toRat * wanted ≤ collateral ∧
      collateral ≤ depth .buy (taken ++ [l]))
    (sold : side = .sell → collateral ≤ l.price.toRat * wanted ∧
      wanted ≤ depth .sell (taken ++ [l])) :
    Fills side l.price.toRat (taken ++ l :: rest) wanted collateral := by
  have good := listed.ranked.accepts_upTo
  have sizes := listed.sizes
  rw [List.append_cons] at sizes ⊢
  have held := tokens_le_tradable sizes good
  have sizesUpTo (x : PriceLevel) (mem : x ∈ taken ++ [l]) : 0 ≤ x.size.toRat :=
    sizes x (List.mem_append_left _ mem)
  have sizesTraded (x : PriceLevel) (mem : x ∈ tradable side l.price.toRat (taken ++ [l] ++ rest)) :
      0 ≤ x.size.toRat :=
    sizes x (mem_tradable.1 mem).1
  have pricesTraded (x : PriceLevel)
      (mem : x ∈ tradable side l.price.toRat (taken ++ [l] ++ rest)) :=
    (mem_tradable.1 mem).2
  cases side with
  | buy =>
    simp only [Side.accepts, decide_eq_true_eq] at good pricesTraded
    obtain ⟨cheap, reached⟩ := bought rfl
    have room := depth_buy_le sizesUpTo good
    -- what the money reaches costs the limit at most, so there are tokens enough for it
    have enough : wanted ≤ tokens (taken ++ [l]) :=
      le_of_mul_le_mul_left (le_trans cheap (le_trans reached room)) positive
    refine ⟨le_trans enough held, fun _ => ?_, ?_⟩
    · exact le_trans (collateralFor_le sizesTraded pricesTraded positive.le some) cheap
    · intro sells
      contradiction
  | sell =>
    simp only [Side.accepts, decide_eq_true_eq] at pricesTraded
    obtain ⟨dear, reached⟩ := sold rfl
    rw [depth_sell] at reached
    have enough := le_trans reached held
    refine ⟨enough, ?_, fun _ => ?_⟩
    · intro buys
      contradiction
    · exact le_trans dear (le_collateralFor sizesTraded pricesTraded some enough)

end PriceLevel

theorem TickSize.toRat_roundNearest_of_int {t : TickSize} {price : Decimal} {k : ℤ}
    (onGrid : price.toRat * 10 ^ t.digits = k) :
    (price.roundNearest t.precision.price).toRat = price.toRat := by
  have same := t.toRat_onGrid price
  rw [ticks, onGrid, Rounding.halfAway_intCast, ← onGrid] at same
  exact mul_right_cancel₀ (by positivity) same

namespace OrderAmounts.ExactAt

variable {t : TickSize} {amount price : Decimal} {a : OrderAmounts}

theorem price_pos (h : ExactAt t amount price a) :
    0 < (price.roundNearest t.precision.price).toRat := by
  refine pos_of_mul_pos_left ?_ (by positivity : (0 : ℚ) ≤ 10 ^ t.digits)
  rw [t.toRat_onGrid]
  exact_mod_cast h.lowest

theorem given_le (h : ExactAt t amount price a) : (a.maker.val : ℚ) / 10 ^ 6 ≤ amount.toRat := by
  have units : (a.maker.val : ℚ) = tokenUnits amount := by exact_mod_cast h.given
  have below := Int.floor_le (100 * amount.toRat)
  rw [units, cast_tokenUnits, div_le_iff₀ (by norm_num)]
  linarith

theorem cost_le (h : ExactAt t amount price a) (buys : a.side = .buy) :
    (price.roundNearest t.precision.price).toRat * (a.taker.val / 10 ^ 6) ≤
      a.maker.val / 10 ^ 6 := by
  have cost : (a.taker.val : ℚ) * t.ticks price ≤ a.maker.val * 10 ^ t.digits := by
    exact_mod_cast (h.bought buys).2.1
  rw [← t.toRat_onGrid, ← mul_assoc] at cost
  rw [← mul_div_assoc, mul_comm]
  exact div_le_div_of_nonneg_right (le_of_mul_le_mul_right cost (by positivity)) (by norm_num)

theorem proceeds_eq (h : ExactAt t amount price a) (sells : a.side = .sell) :
    (a.taker.val : ℚ) / 10 ^ 6 =
      (price.roundNearest t.precision.price).toRat * (a.maker.val / 10 ^ 6) := by
  have exact := (h.sold sells).2
  rw [← h.given] at exact
  have proceeds : (a.taker.val : ℚ) * 10 ^ t.digits = a.maker.val * t.ticks price := by
    exact_mod_cast exact
  rw [← t.toRat_onGrid, ← mul_assoc] at proceeds
  rw [mul_right_cancel₀ (by positivity) proceeds, mul_comm, ← mul_div_assoc, mul_comm]

end OrderAmounts.ExactAt

namespace OrderBuilder

open PriceLevel (Exact Fills Listed)

/-- A market order that is created from a book, and must be filled, can be filled by it: at the
limit or better the book has the tokens, and best first they cost a buyer no more than is given, and
yield a seller no less than is taken. -/
theorem createMarketFromBook_fills (b : OrderBuilder) {r : MarketRequest} {o : MarketOptions}
    {levels : List PriceLevel} (salt : Uint64) (unpriced : r.price = none)
    (must : r.timeInForce = .fillOrKill) (listed : Listed o.tickSize r.side levels)
    (exact : Exact r.side 0 levels) :
    ∀ s, b.createMarketFromBook r o levels salt = .ok s → s.order.side = r.side ∧
      ∃ price, PriceLevel.marketPrice r.side levels r.amount .fillOrKill = .ok price ∧
        Fills r.side (price.roundNearest o.tickSize.precision.price).toRat levels
          ((r.side.tokenLeg s.order.makerAmount s.order.takerAmount).val / 10 ^ 6)
          ((r.side.collateralLeg s.order.makerAmount s.order.takerAmount).val / 10 ^ 6) := by
  intro s h
  obtain ⟨side, price, found, given⟩ := exactAt_of_createMarketFromBook h
  rw [priceFrom, unpriced, must] at found
  refine ⟨side, price, found, ?_⟩
  obtain ⟨passed, l, rest, rfl, rfl, _, reached⟩ := PriceLevel.marketPrice_fillOrKill exact found
  -- the walk ends at a price of the grid, which the order is signed with as it is
  obtain ⟨k, onGrid⟩ := listed.onGrid l (by simp)
  have positive := given.price_pos
  have spent := given.given_le
  rw [TickSize.toRat_roundNearest_of_int onGrid] at positive ⊢
  refine listed.fills positive (by positivity) ?_ ?_
  · intro buys
    have cost := given.cost_le (side.trans buys)
    rw [TickSize.toRat_roundNearest_of_int onGrid] at cost
    rw [buys] at reached ⊢
    exact ⟨cost, le_trans spent reached⟩
  · intro sells
    have proceeds := given.proceeds_eq (side.trans sells)
    rw [TickSize.toRat_roundNearest_of_int onGrid] at proceeds
    rw [sells] at reached ⊢
    exact ⟨proceeds.le, le_trans spent reached⟩

def sixTenths : Decimal := ⟨false, 6, 1, by decide, TickSize.tenth.decimal.scale_le⟩

def twoLevels : List PriceLevel := [
  ⟨⟨false, 5, 1, by decide, TickSize.tenth.decimal.scale_le⟩,
    ⟨false, 100, 0, by decide, Decimal.zero.scale_le⟩⟩,
  ⟨sixTenths, ⟨false, 100, 0, by decide, Decimal.zero.scale_le⟩⟩]

def spendEighty : MarketRequest where
  tokenId := "1"
  amount := ⟨false, 80, 0, by decide, Decimal.zero.scale_le⟩
  side := .buy
  price := none
  timeInForce := .fillOrKill
  feeRateBps := Uint.zero 64
  nonce := Uint.zero 64
  taker := Address.zero

theorem listed_twoLevels : Listed .tenth .buy twoLevels where
  onGrid := by
    simp only [twoLevels, List.forall_mem_cons, List.not_mem_nil, false_imp_iff, implies_true,
      and_true]
    exact ⟨⟨5, by norm_num [Decimal.toRat, Decimal.signed, TickSize.digits]⟩,
      ⟨6, by norm_num [sixTenths, Decimal.toRat, Decimal.signed, TickSize.digits]⟩⟩
  sizes := by
    simp [twoLevels, sixTenths, Decimal.toRat, Decimal.signed]
  bestFirst := by
    norm_num [twoLevels, sixTenths, Side.accepts, Decimal.toRat, Decimal.signed]

theorem exact_twoLevels : Exact .buy 0 twoLevels := by
  norm_num [twoLevels, sixTenths, Exact, PriceLevel.worth, Decimal.toRat, Decimal.signed]
  exact ⟨Decimal.writable_natCast 50 (by decide), Decimal.writable_natCast 60 (by decide),
    Decimal.writable_natCast 110 (by decide)⟩

def eightyDigest : Word :=
  FixedBytes.ofNat 32 0xa97b50a6da3067ec12aeb5eaa1427dfa9446fcf62cff79ff258e2a121c3569a8

theorem signingHash_spendEighty :
    (Order.leastBid ⟨80000000, by decide⟩ ⟨133333000, by decide⟩).signingHash
      (.exchange Contracts.polygon (Contracts.onPolygon false).exchange) = .ok eightyDigest := by
  rw [Order.signingHash_polygon, Order.leastBid, SecretKey.address_least]
  refine congrArg Except.ok (FixedBytes.ext ?_)
  decide +kernel

theorem isSome_sign?_eightyDigest : (SecretKey.least.sign? eightyDigest).isSome := by
  decide +kernel

theorem createMarketFromBook_fills_twoLevels :
    spendEighty.price = none ∧ spendEighty.timeInForce = .fillOrKill ∧
      Listed .tenth spendEighty.side twoLevels ∧ Exact spendEighty.side 0 twoLevels ∧
      priceFrom spendEighty twoLevels = .ok sixTenths ∧
      (∀ b : OrderBuilder, ∃ order,
        b.marketOrderAt spendEighty ⟨.tenth, false⟩ (Uint.zero 64) sixTenths = .ok order ∧
        order.makerAmount.val = 80000000 ∧ order.takerAmount.val = 133333000) ∧
      (∀ (b : OrderBuilder) (s : SignedOrder),
        b.createMarketFromBook spendEighty ⟨.tenth, false⟩ twoLevels (Uint.zero 64) = .ok s →
        s.order.side = .buy ∧
        ∃ price, PriceLevel.marketPrice .buy twoLevels spendEighty.amount .fillOrKill = .ok price ∧
          Fills .buy (price.roundNearest 1).toRat twoLevels
            (s.order.takerAmount.val / 10 ^ 6) (s.order.makerAmount.val / 10 ^ 6)) ∧
      ∃ s, (ofSigner (.ofKey .least Contracts.polygon) .externallyOwned none).createMarketFromBook
          spendEighty ⟨.tenth, false⟩ twoLevels (Uint.zero 64) = .ok s ∧
        s.order.makerAmount.val = 80000000 ∧ s.order.takerAmount.val = 133333000 := by
  have walked : priceFrom spendEighty twoLevels = .ok sixTenths :=
    Result.eq_ok_of_toOption (by decide +kernel)
  have checked : (⟨.tenth, false⟩ : MarketOptions).checkPrice sixTenths = .ok () :=
    Result.eq_ok_of_toOption (by decide +kernel)
  have amounts : OrderAmounts.market .buy spendEighty.amount sixTenths TickSize.tenth.precision =
      .ok ⟨.buy, ⟨80000000, by decide⟩, ⟨133333000, by decide⟩⟩ :=
    Result.eq_ok_of_toOption (by decide +kernel)
  have token : Uint256.parse spendEighty.tokenId = .ok ⟨1, by decide⟩ := rfl
  have built (b : OrderBuilder) :
      b.marketOrderAt spendEighty ⟨.tenth, false⟩ (Uint.zero 64) sixTenths = .ok _ :=
    marketOrderAt_eq_ok_iff.2 ⟨checked, _, _, amounts, token, rfl⟩
  let b := ofSigner (.ofKey .least Contracts.polygon) .externallyOwned none
  have chain : Contracts.ofChain Contracts.polygon false = .ok (.onPolygon false) := rfl
  obtain ⟨signature, signed⟩ := Option.isSome_iff_exists.1 isSome_sign?_eightyDigest
  have made : b.createMarketFromBook spendEighty ⟨.tenth, false⟩ twoLevels (Uint.zero 64) = .ok _ :=
    Result.bind_eq_ok.2 ⟨_, walked, Result.bind_eq_ok.2 ⟨_, built b,
      sign_eq_ok_iff.2 ⟨_, _, signature, chain, signingHash_spendEighty, signed, rfl⟩⟩⟩
  refine ⟨rfl, rfl, listed_twoLevels, exact_twoLevels, walked, fun b => ⟨_, built b, rfl, rfl⟩, ?_,
    _, made, rfl, rfl⟩
  intro b
  exact createMarketFromBook_fills b (Uint.zero 64) rfl rfl listed_twoLevels exact_twoLevels

end OrderBuilder

end VenueSigner
