import VenueSigner.Decimal.Text
import VenueSigner.Json.Record
import VenueSigner.Market.Amounts
/-!
Decimals in JSON, the levels of an order book, and the price at which a book has enough for an
order: its levels are taken best first until the target is reached.
-/

namespace VenueSigner

open Json (Number Slot Tree)

namespace Decimal

def ofInt? (n : Int) : Option Decimal :=
  ofParts? (n < 0) n.natAbs 0

def ofNumber? : Number → Option Decimal
  | .int n => ofInt? n
  | .binary x => parse? x.positional

def ofTree? : Tree → Option Decimal
  | .number l => (Number.ofLiteral? l).bind ofNumber?
  | .text s => s.bind parse?
  | _ => none

def toTree (d : Decimal) : Tree := .ofText d.text

end Decimal

structure PriceLevel where
  price : Decimal
  size : Decimal
deriving DecidableEq

namespace PriceLevel

def ofTree? (t : Tree) : Option PriceLevel :=
  match t.slots? ["price", "size"] with
  | some [price, size] => do
    return ⟨← Slot.required? Decimal.ofTree? price, ← Slot.required? Decimal.ofTree? size⟩
  | _ => none

def toTree (l : PriceLevel) : Tree :=
  .ofMembers [("price", l.price.toTree), ("size", l.size.toTree)]

/-- What a level adds to the target: money for a buyer, tokens for a seller. -/
def contribution (side : Side) (l : PriceLevel) : Result Decimal :=
  match side with
  | .buy => l.price.mul l.size
  | .sell => .ok l.size

/-- The price of the level at which the running sum reaches the target, if it does. -/
def reaching? (side : Side) (target sum : Decimal) : List PriceLevel → Result (Option Decimal)
  | [] => .ok none
  | l :: rest => do
    let filled ← l.contribution side
    match sum.add? filled with
    | none => throw (.depthOverflow sum filled)
    | some sum => if target.le sum then return some l.price else reaching? side target sum rest

/-- The price of an order for the target. When the book has not enough, an order that must be filled
has none, and any other takes the price of the last level. -/
def marketPrice (side : Side) (levels : List PriceLevel) (target : Decimal) (tif : TimeInForce) :
    Result Decimal :=
  match levels.getLast? with
  | none => .error .noMatch
  | some last => do
    match ← reaching? side target .zero levels with
    | some price => return price
    | none => if tif = .fillOrKill then throw .noMatch else return last.price

end PriceLevel

end VenueSigner
