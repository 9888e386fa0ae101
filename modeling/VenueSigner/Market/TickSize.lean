import VenueSigner.Decimal.Basic
import VenueSigner.Text.Characters
/-!
The price grids of markets: each tick size fixes how many fraction digits prices, sizes and amounts
have.
-/

namespace VenueSigner

inductive TickSize
  | tenth
  | hundredth
  | thousandth
  | tenThousandth
deriving DecidableEq

/-- How many fraction digits prices, sizes and amounts may have. -/
structure Precision where
  price : Nat
  size : Nat
  amount : Nat
deriving DecidableEq

namespace TickSize

def all : List TickSize := [tenth, hundredth, thousandth, tenThousandth]

def text : TickSize → String
  | tenth => "0.1"
  | hundredth => "0.01"
  | thousandth => "0.001"
  | tenThousandth => "0.0001"

def ofText? (s : String) : Option TickSize :=
  all.find? (·.text = Blank.trim s)

def digits : TickSize → Nat
  | tenth => 1
  | hundredth => 2
  | thousandth => 3
  | tenThousandth => 4

/-- Sizes have two fraction digits on every grid, and amounts as many as price and size together. -/
def precision (t : TickSize) : Precision :=
  ⟨t.digits, 2, t.digits + 2⟩

def decimal (t : TickSize) : Decimal :=
  ⟨false, 1, t.digits, by decide, by cases t <;> decide⟩

def highest (t : TickSize) : Decimal :=
  ⟨false, 10 ^ t.digits - 1, t.digits, by cases t <;> decide, by cases t <;> decide⟩

def admits (t : TickSize) (price : Decimal) : Bool :=
  t.decimal.le price && price.le t.highest

def isFiner (t other : TickSize) : Bool :=
  t.decimal.lt other.decimal

end TickSize

end VenueSigner
