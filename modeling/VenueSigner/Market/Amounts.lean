import VenueSigner.Decimal.Arithmetic
import VenueSigner.Order.Basic
/-!
What an order gives and takes, in millionths of a token: from a price and a size, or from a price
and an amount to spend or sell.
-/

namespace VenueSigner

namespace Decimal

def million : Decimal := ⟨false, 1000000, 0, by decide, zero.scale_le⟩

def toBaseUnits (d : Decimal) : Result Uint64 :=
  match d.mul? million with
  | none => .error (.exceedsDecimal d)
  | some scaled =>
    let n := scaled.roundNearest 0
    if n.negative then .error (.exceedsBaseUnits d)
    else
      match Uint.ofNat? 64 n.mantissa with
      | some u => .ok u
      | none => .error (.exceedsBaseUnits d)

def mul (a b : Decimal) : Result Decimal :=
  match a.mul? b with
  | some d => .ok d
  | none => .error (.productOverflow a b)

end Decimal

namespace Precision

/-- An amount with no more digits than allowed: rounded up four digits further on, so that one a
hair below a number of the grid becomes that number, and then cut off. -/
def clamp (p : Precision) (d : Decimal) : Decimal :=
  if d.places ≤ p.amount then d
  else
    let r := d.roundUp (p.amount + 4)
    if p.amount < r.places then r.roundDown p.amount else r

end Precision

/-- What an order gives and takes, in base units. -/
structure OrderAmounts where
  side : Side
  maker : Uint64
  taker : Uint64
deriving DecidableEq

namespace OrderAmounts

def ofDecimals (side : Side) (maker taker : Decimal) : Result OrderAmounts := do
  let m ← maker.toBaseUnits
  let t ← taker.toBaseUnits
  return ⟨side, m, t⟩

def limit (side : Side) (size price : Decimal) (p : Precision) : Result OrderAmounts := do
  let price := price.roundNearest p.price
  let tokens := size.roundDown p.size
  let cost := p.clamp (← tokens.mul price)
  match side with
  | .buy => ofDecimals side cost tokens
  | .sell => ofDecimals side tokens cost

/-- What a market order takes for the amount it gives, before it is cut to the allowed digits. -/
def taken (side : Side) (given price : Decimal) : Result Decimal :=
  match side with
  | .buy =>
    match given.div? price with
    | some d => .ok d
    | none => .error (.cannotDivide price)
  | .sell => given.mul price

/-- The amounts of an order that spends, when buying, or sells an amount. -/
def market (side : Side) (amount price : Decimal) (p : Precision) : Result OrderAmounts := do
  let price := price.roundNearest p.price
  let given := amount.roundDown p.size
  ofDecimals side given (p.clamp (← taken side given price))

end OrderAmounts

end VenueSigner
