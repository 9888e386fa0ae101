import VenueSigner.Decimal.Basic
/-!
Products, sums and quotients of decimals: exact where the result can be written, else with as many
digits as there is room for, a half going to the even digit; there is no result when the whole part
is too large. A quotient is found by long division, whose digits come in blocks of up to nine. Zeros
at the end go in blocks too, so a quotient can keep some of them.
-/

namespace VenueSigner.Decimal

def excess (mantissa : Nat) : Nat → Nat
  | 0 => 0
  | fuel + 1 => if mantissa < limit then 0 else excess (mantissa / 10) fuel + 1

/-- The decimal nearest to `± mantissa / 10 ^ scale` that has as few digits less as possible. -/
def fit? (negative : Bool) (mantissa scale : Nat) : Option Decimal :=
  let drop := max (scale - maxScale) (excess mantissa (scale + 1))
  -- rounded up to the limit, the mantissa has a digit too many
  let drop := if Rounding.divHalfEven mantissa (10 ^ drop) = limit then drop + 1 else drop
  if drop ≤ scale then
    ofParts? negative (Rounding.divHalfEven mantissa (10 ^ drop)) (scale - drop)
  else
    none

def mul? (a b : Decimal) : Option Decimal :=
  if a.isZero || b.isZero then some zero
  else fit? (a.negative != b.negative) (a.mantissa * b.mantissa) (a.scale + b.scale)

def add? (a b : Decimal) : Option Decimal :=
  if a.isZero then some b
  else if b.isZero then some a
  else
    let scale := max a.scale b.scale
    let sum := a.signed * 10 ^ (scale - a.scale) + b.signed * 10 ^ (scale - b.scale)
    fit? (sum < 0) sum.natAbs scale

def room (mantissa : Nat) : (most : Nat) → Nat
  | 0 => 0
  | n + 1 => if mantissa * 10 ^ (n + 1) < limit then n + 1 else room mantissa n

theorem room_le (mantissa most : Nat) : room mantissa most ≤ most := by
  induction most with
  | zero => exact Nat.le_refl 0
  | succ n ih =>
    unfold room
    split
    · exact Nat.le_refl _
    · exact Nat.le_succ_of_le ih

/-- The numerator with a zero more for each digit that a quotient gets, and how many fraction digits
are left to the greatest scale. Digits are added until nothing remains or until there is no room;
there must be room for the whole part. -/
def longDivision? (num den left : Nat) : Option (Nat × Nat) :=
  if num % den = 0 then some (num * 10 ^ (left - maxScale), min left maxScale)
  else
    let block := room (num / den) (min 9 left)
    if block = 0 then if left ≤ maxScale then some (num, left) else none
    else if limit ≤ num * 10 ^ block / den then some (num * 10 ^ block, left - block)
    else longDivision? (num * 10 ^ block) den (left - block)
termination_by left
decreasing_by
  have := room_le (num / den) (min 9 left)
  omega

def dropEights (mantissa : Nat) : Nat → Nat × Nat
  | scale + 8 =>
    -- the lowest word is looked at first, so eight zeros stay if it is not zero
    if mantissa % 2 ^ 32 = 0 ∧ mantissa % 10 ^ 8 = 0 then dropEights (mantissa / 10 ^ 8) scale
    else (mantissa, scale + 8)
  | scale => (mantissa, scale)

def dropBlock (count : Nat) (d : Nat × Nat) : Nat × Nat :=
  if count ≤ d.2 ∧ d.1 % 10 ^ count = 0 then (d.1 / 10 ^ count, d.2 - count) else d

/-- A mantissa and a scale without blocks of eight, four, two and one zeros, each tried once after
those of eight. -/
def dropBlocks (mantissa scale : Nat) : Nat × Nat :=
  dropBlock 1 (dropBlock 2 (dropBlock 4 (dropEights mantissa scale)))

def ofDigits? (negative : Bool) (mantissa scale : Nat) : Option Decimal :=
  let (mantissa, scale) := dropBlocks mantissa scale
  ofParts? negative mantissa scale

/-- The decimal nearest to a quotient, `left` fraction digits short of the greatest scale at first.
A mantissa that does not fit gives up its last digit. -/
def nearest? (negative : Bool) (num den left : Nat) : Option Decimal := do
  let (num, left) ← longDivision? num den left
  if Rounding.divHalfEven num den < limit then
    ofDigits? negative (Rounding.divHalfEven num den) (maxScale - left)
  else if left < maxScale then
    ofDigits? negative (Rounding.divHalfEven num (10 * den)) (maxScale - left - 1)
  else none

/-- The quotient. Mantissas that divide leave the difference of the scales, or none when that is
negative; otherwise the quotient has the digits it needs, as far as there is room. -/
def div? (a b : Decimal) : Option Decimal :=
  if b.isZero then none
  else if a.isZero then some zero
  else
    let negative := a.negative != b.negative
    if a.mantissa % b.mantissa = 0 then
      ofParts? negative (a.mantissa / b.mantissa * 10 ^ (b.scale - a.scale)) (a.scale - b.scale)
    else nearest? negative a.mantissa b.mantissa (maxScale + b.scale - a.scale)

end VenueSigner.Decimal
