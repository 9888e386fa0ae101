import VenueSigner.Hash.Keccak.Sponge
import VenueSigner.Market.Level
import VenueSigner.Order.Basic
/-!
Order books as the venue reports them, and the digest that identifies the state of one.
-/

namespace VenueSigner

open Json (Slot Tree)

/-- The book of a token at a time: what is wanted and what is offered, best first. -/
structure OrderBook where
  market : String
  assetId : String
  timestamp : String
  bids : List PriceLevel
  asks : List PriceLevel
  hash : Option String
deriving DecidableEq

namespace OrderBook

def bestBid (b : OrderBook) : Option Decimal :=
  b.bids.head?.map (·.price)

def bestAsk (b : OrderBook) : Option Decimal :=
  b.asks.head?.map (·.price)

def levels (b : OrderBook) : Side → List PriceLevel
  | .buy => b.asks
  | .sell => b.bids

def levelsTree (ls : List PriceLevel) : Tree :=
  .list (ls.map PriceLevel.toTree)

def summary (b : OrderBook) : Tree :=
  .ofMembers [("asks", levelsTree b.asks), ("asset_id", .ofText b.assetId),
    ("bids", levelsTree b.bids), ("market", .ofText b.market), ("timestamp", .ofText b.timestamp)]

/-- The digest of the summary, as text. -/
def summaryHash (b : OrderBook) : String :=
  Hex.encodePrefixed (Keccak.digestText b.summary.render).bytes

def ofTree? (t : Tree) : Option OrderBook :=
  match t.slots? ["market", "asset_id", "timestamp", "bids", "asks", "hash"] with
  | some [market, assetId, timestamp, bids, asks, hash] => do
    return ⟨← Slot.required? Tree.text? market, ← Slot.required? Tree.text? assetId,
      ← Slot.required? Tree.text? timestamp,
      ← Slot.required? (Tree.listOf? PriceLevel.ofTree?) bids,
      ← Slot.required? (Tree.listOf? PriceLevel.ofTree?) asks,
      ← Slot.optional? Tree.text? hash⟩
  | _ => none

def hashTree : Option String → List (String × Tree)
  | none => []
  | some h => [("hash", .ofText h)]

def toTree (b : OrderBook) : Tree :=
  .ofMembers ([("market", .ofText b.market), ("asset_id", .ofText b.assetId),
    ("timestamp", .ofText b.timestamp), ("bids", levelsTree b.bids), ("asks", levelsTree b.asks)]
    ++ hashTree b.hash)

end OrderBook

end VenueSigner
