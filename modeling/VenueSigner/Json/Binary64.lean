import VenueSigner.Rounding
import VenueSigner.Text.Digits
/-!
Finite binary numbers of 64 bits: rounding a fraction to the nearest one, their products and
quotients, and the shortest decimal numeral that lies nearer to one than to any other.
-/

namespace VenueSigner

/-- The number `± mantissa * 2 ^ exponent`; the mantissa has 53 bits unless the exponent is the
least. -/
structure Binary64 where
  negative : Bool
  mantissa : Nat
  exponent : Int
deriving DecidableEq

namespace Binary64

def minExponent : Int := -1074

def maxExponent : Int := 971

def zero : Binary64 := ⟨false, 0, minExponent⟩

def scaleBits (num den : Nat) (shift : Int) : Nat × Nat :=
  if shift < 0 then (num, den * 2 ^ shift.natAbs) else (num * 2 ^ shift.natAbs, den)

/-- The exponent at which a positive fraction has a mantissa of 53 bits, or the least exponent. -/
def exponentFor (num den : Nat) : Int :=
  let guess : Int := (num.log2 : Int) - den.log2 - 53
  let (n, d) := scaleBits num den (-guess)
  max minExponent (if 2 ^ 53 ≤ n / d then guess + 1 else guess)

/-- The nearest binary number to a fraction that is not negative, a half to the even mantissa; there
is none if the fraction is too large. -/
def nearest? (num den : Nat) : Option Binary64 :=
  if num = 0 then some zero
  else
    let e := exponentFor num den
    let (n, d) := scaleBits num den (-e)
    let m := Rounding.divHalfEven n d
    let (m, e) := if m = 2 ^ 53 then (2 ^ 52, e + 1) else (m, e)
    if e ≤ maxExponent then some ⟨false, m, e⟩ else none

def fraction (x : Binary64) : Nat × Nat :=
  scaleBits x.mantissa 1 x.exponent

def mul? (x y : Binary64) : Option Binary64 :=
  let (a, b) := x.fraction
  let (c, d) := y.fraction
  nearest? (a * c) (b * d)

def div? (x y : Binary64) : Option Binary64 :=
  let (a, b) := x.fraction
  let (c, d) := y.fraction
  nearest? (a * d) (b * c)

def tenPow? (n : Nat) : Option Binary64 :=
  nearest? (10 ^ n) 1

/-- The nearest binary number to a whole number times a power of ten; sizes beyond the range of
exponents are told by the count of digits. -/
def ofScientific? (significand : Nat) (power : Int) : Option Binary64 :=
  let size : Int := (Digits.ofNat significand).length + power
  if significand = 0 ∨ size < -330 then some zero
  else if 310 < size then none
  else if power < 0 then nearest? significand (10 ^ power.natAbs)
  else nearest? (significand * 10 ^ power.natAbs) 1

def lower (x : Binary64) : Nat → Option Binary64
  | 0 => some x
  | n + 1 => do
    if x.mantissa = 0 then return x
    lower (← x.div? (← tenPow? 308)) n

/-- A whole number times a power of ten, as the product or quotient of the two after each was
rounded; powers below `10 ^ -308` are divided off in steps. There is none if the result is too
large. -/
def scaled? (significand : Nat) (power : Int) : Option Binary64 := do
  let x ← nearest? significand 1
  if x.mantissa = 0 then return x
  if 308 < power then none
  else if 0 ≤ power then x.mul? (← tenPow? power.natAbs)
  else
    let steps := (power.natAbs - 1) / 308
    if steps > 2 then return zero
    (← lower x steps).div? (← tenPow? (power.natAbs - 308 * steps))

end Binary64

/-- Decimal digits without trailing zeros, and the power of ten of the last of them. -/
structure Numeral where
  digits : List Digit
  power : Int

namespace Binary64

/-- The interval of numbers that round to a positive binary number, as two numerators over the power
`2 ^ (exponent - 2)`, and whether its ends belong to it. -/
def interval (x : Binary64) : Nat × Nat × Bool :=
  let low := if x.mantissa = 2 ^ 52 ∧ minExponent < x.exponent then 1 else 2
  (4 * x.mantissa - low, 4 * x.mantissa + 2, x.mantissa % 2 = 0)

def accepts (x : Binary64) (count : Nat) (power : Int) : Bool :=
  let (low, high, closed) := x.interval
  let (a, b) := scaleBits 1 1 (x.exponent - 2)
  let (c, d) := if power < 0 then (count, 10 ^ power.natAbs) else (count * 10 ^ power.natAbs, 1)
  let lowSide := low * a * d
  let highSide := high * a * d
  let point := c * b
  (lowSide < point || (closed && lowSide == point)) &&
    (point < highSide || (closed && point == highSide))

def leadingPower (num den : Nat) : Int :=
  if den ≤ num then (Digits.ofNat (num / den)).length - 1
  else
    let k := (Digits.ofNat (den / num)).length - 1
    if num * 10 ^ k = den then -k else -(k + 1)

/-- The nearest of the two multiples of `10 ^ power` around the number that round to it; of two at
the same distance, the one with an even count. -/
def gridPoint? (x : Binary64) (power : Int) : Option Nat :=
  let (a, b) := x.fraction
  let (n, d) := if power < 0 then (a * 10 ^ power.natAbs, b) else (a, b * 10 ^ power.natAbs)
  let down := n / d
  let best := Rounding.divHalfEven n d
  let other := if best = down then down + 1 else down
  if x.accepts best power then some best
  else if x.accepts other power then some other
  else none

def shortestFrom (x : Binary64) (lead : Int) (places : Nat) : Nat → Nat × Int
  | 0 => (0, 0)
  | fuel + 1 =>
    let power := lead - places
    match x.gridPoint? power with
    | some count => (count, power)
    | none => shortestFrom x lead (places + 1) fuel

def stripZeros : Nat → Nat × Int → Nat × Int
  | 0, p => p
  | fuel + 1, (count, power) =>
    if count % 10 = 0 then stripZeros fuel (count / 10, power + 1) else (count, power)

/-- The shortest decimal numeral that rounds to a number other than zero, the sign apart. -/
def shortest (x : Binary64) : Numeral :=
  let (a, b) := x.fraction
  let (count, power) := stripZeros 20 (shortestFrom x (leadingPower a b) 0 18)
  ⟨Digits.ofNat count, power⟩

def signText (x : Binary64) : String :=
  if x.negative then "-" else ""

def positional (x : Binary64) : String :=
  if x.mantissa = 0 then x.signText ++ "0"
  else
    let n := x.shortest
    let digits (ds : List Digit) : String := String.ofList (Digits.toChars ds)
    let point : Int := n.digits.length + n.power
    if 0 ≤ n.power then
      x.signText ++ digits (n.digits ++ List.replicate n.power.natAbs 0)
    else if 0 < point then
      let whole := point.natAbs
      x.signText ++ digits (n.digits.take whole) ++ "." ++ digits (n.digits.drop whole)
    else
      x.signText ++ "0." ++ digits (List.replicate point.natAbs 0 ++ n.digits)

end Binary64

end VenueSigner
