import VenueSigner.Chain.Contracts
import VenueSigner.Market.Level
import VenueSigner.Order.Posting
import VenueSigner.Order.Request
import VenueSigner.Signer
/-!
From requests to signed orders: the price must lie on the market's grid, amounts follow from it, and
the order is signed for the exchange of the market.
-/

namespace VenueSigner

open TypedData (Domain)

namespace Order

/-- Salts lie below this number, so that a number with 53 bits of precision holds each. -/
def saltLimit : Nat := 2 ^ 53

def saltOf (random : Uint64) : Uint64 :=
  ⟨random.val % saltLimit, Nat.lt_of_le_of_lt (Nat.mod_le _ _) random.val_lt⟩

end Order

namespace MarketOptions

def checkPrice (o : MarketOptions) (price : Decimal) : Result Unit :=
  if o.tickSize.admits (price.roundNearest o.tickSize.precision.price) then .ok ()
  else .error (.priceOutside price o.tickSize)

end MarketOptions

/-- Who orders are signed by, and whose money they spend. -/
structure OrderBuilder where
  signer : Signer
  signatureKind : SignatureKind
  funder : Address

namespace OrderBuilder

def ofSigner (signer : Signer) (kind : SignatureKind) (funder : Option Address) : OrderBuilder :=
  ⟨signer, kind, funder.getD signer.address⟩

def domain (b : OrderBuilder) (o : MarketOptions) : Result Domain := do
  let contracts ← Contracts.ofChain b.signer.chainId o.negRisk
  return .exchange b.signer.chainId contracts.exchange

def sign (b : OrderBuilder) (order : Order) (o : MarketOptions) (tif : TimeInForce) :
    Result SignedOrder := do
  let domain ← b.domain o
  let signature ← b.signer.signWord (← order.signingHash domain)
  return ⟨order, signature, tif, ""⟩

def limitOrder (b : OrderBuilder) (r : LimitRequest) (o : MarketOptions) (salt : Uint64) :
    Result Order := do
  o.checkPrice r.price
  let amounts ← OrderAmounts.limit r.side r.size r.price o.tickSize.precision
  let tokenId ← Uint256.parse r.tokenId
  return {
    salt, tokenId
    maker := b.funder
    signer := b.signer.address
    taker := r.taker
    makerAmount := amounts.maker
    takerAmount := amounts.taker
    expiration := r.expiration
    nonce := r.nonce
    feeRateBps := r.feeRateBps
    side := amounts.side
    signatureKind := b.signatureKind }

def marketOrderAt (b : OrderBuilder) (r : MarketRequest) (o : MarketOptions) (salt : Uint64)
    (price : Decimal) : Result Order := do
  o.checkPrice price
  let amounts ← OrderAmounts.market r.side r.amount price o.tickSize.precision
  let tokenId ← Uint256.parse r.tokenId
  return {
    salt, tokenId
    maker := b.funder
    signer := b.signer.address
    taker := r.taker
    makerAmount := amounts.maker
    takerAmount := amounts.taker
    expiration := Uint.zero 64
    nonce := r.nonce
    feeRateBps := r.feeRateBps
    side := amounts.side
    signatureKind := b.signatureKind }

def createLimit (b : OrderBuilder) (r : LimitRequest) (o : MarketOptions) (salt : Uint64) :
    Result SignedOrder := do
  b.sign (← b.limitOrder r o salt) o .goodTillCancelled

def createMarket (b : OrderBuilder) (r : MarketRequest) (o : MarketOptions) (salt : Uint64) :
    Result SignedOrder :=
  match r.price with
  | none => .error .priceMissing
  | some price => do b.sign (← b.marketOrderAt r o salt price) o r.timeInForce

def priceFrom (r : MarketRequest) (levels : List PriceLevel) : Result Decimal :=
  match r.price with
  | some price => .ok price
  | none => PriceLevel.marketPrice r.side levels r.amount r.timeInForce

/-- Creates and signs a market order at the price of the request or, without one, of the book. -/
def createMarketFromBook (b : OrderBuilder) (r : MarketRequest) (o : MarketOptions)
    (levels : List PriceLevel) (salt : Uint64) : Result SignedOrder := do
  let price ← priceFrom r levels
  b.sign (← b.marketOrderAt r o salt price) o r.timeInForce

end OrderBuilder

end VenueSigner
