import VenueSigner.Json.Record
import VenueSigner.Market.Level
import VenueSigner.Order.Basic
/-!
What callers ask for: a limit order, a market order, and what is known about the market.
-/

namespace VenueSigner

open Json (Slot Tree)

/-- A limit order: so many tokens at a price. -/
structure LimitRequest where
  tokenId : String
  price : Decimal
  size : Decimal
  side : Side
  feeRateBps : Uint64
  nonce : Uint64
  expiration : Uint64
  taker : Address
deriving DecidableEq

/-- A market order: an amount to spend or to sell, at a price that may be left to the book. -/
structure MarketRequest where
  tokenId : String
  amount : Decimal
  side : Side
  price : Option Decimal
  timeInForce : TimeInForce
  feeRateBps : Uint64
  nonce : Uint64
  taker : Address
deriving DecidableEq

structure MarketOptions where
  tickSize : TickSize
  negRisk : Bool
deriving DecidableEq

namespace Json.Slot

def count? (s : Slot) : Option Uint64 :=
  s.orElse? (Tree.uint? 64) (Uint.zero 64)

def address? (s : Slot) : Option Address :=
  s.orElse? (Tree.fixedBytes? 20) (FixedBytes.ofNat 20 0)

end Json.Slot

namespace LimitRequest

def ofTree? (t : Tree) : Option LimitRequest :=
  match t.slots? ["token_id", "price", "size", "side", "fee_rate_bps", "nonce", "expiration",
      "taker"] with
  | some [tokenId, price, size, side, fee, nonce, expiration, taker] => do
    return ⟨← Slot.required? Tree.text? tokenId, ← Slot.required? Decimal.ofTree? price,
      ← Slot.required? Decimal.ofTree? size, ← Slot.required? Side.ofTree? side,
      ← Slot.count? fee, ← Slot.count? nonce, ← Slot.count? expiration, ← Slot.address? taker⟩
  | _ => none

def toTree (r : LimitRequest) : Tree :=
  .ofMembers [("token_id", .ofText r.tokenId), ("price", r.price.toTree), ("size", r.size.toTree),
    ("side", r.side.toTree), ("fee_rate_bps", .ofUint r.feeRateBps), ("nonce", .ofUint r.nonce),
    ("expiration", .ofUint r.expiration), ("taker", .ofBytes r.taker.bytes)]

end LimitRequest

namespace MarketRequest

def ofTree? (t : Tree) : Option MarketRequest :=
  match t.slots? ["token_id", "amount", "side", "price", "order_type", "fee_rate_bps", "nonce",
      "taker"] with
  | some [tokenId, amount, side, price, timeInForce, fee, nonce, taker] => do
    return ⟨← Slot.required? Tree.text? tokenId, ← Slot.required? Decimal.ofTree? amount,
      ← Slot.required? Side.ofTree? side, ← Slot.optional? Decimal.ofTree? price,
      ← Slot.orElse? TimeInForce.ofTree? .fillOrKill timeInForce, ← Slot.count? fee,
      ← Slot.count? nonce, ← Slot.address? taker⟩
  | _ => none

def priceTree : Option Decimal → Tree
  | some d => d.toTree
  | none => .null

def toTree (r : MarketRequest) : Tree :=
  .ofMembers [("token_id", .ofText r.tokenId), ("amount", r.amount.toTree),
    ("side", r.side.toTree), ("price", priceTree r.price), ("order_type", r.timeInForce.toTree),
    ("fee_rate_bps", .ofUint r.feeRateBps), ("nonce", .ofUint r.nonce),
    ("taker", .ofBytes r.taker.bytes)]

end MarketRequest

namespace MarketOptions

def ofTree? (t : Tree) : Option MarketOptions :=
  match t.slots? ["tick_size", "neg_risk"] with
  | some [tickSize, negRisk] => do
    return ⟨← Slot.required? TickSize.ofTree? tickSize,
      ← Slot.orElse? Tree.bool? false negRisk⟩
  | _ => none

def toTree (o : MarketOptions) : Tree :=
  .ofMembers [("tick_size", o.tickSize.toTree), ("neg_risk", .bool o.negRisk)]

end MarketOptions

end VenueSigner
