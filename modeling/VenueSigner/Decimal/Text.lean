import VenueSigner.Decimal.Basic
import VenueSigner.Text.Digits
/-!
Decimals as text: printed with exactly as many fraction digits as the scale says, and read in plain
or scientific notation.
-/

namespace VenueSigner.Decimal

def paddedDigits (width n : Nat) : List Digit :=
  let ds := Digits.ofNat n
  List.replicate (width - ds.length) 0 ++ ds

def chars (d : Decimal) : List Char :=
  let ds := paddedDigits (d.scale + 1) d.mantissa
  let whole := Digits.toChars (ds.take (ds.length - d.scale))
  let sign := if d.negative then ['-'] else []
  if d.scale = 0 then sign ++ whole
  else sign ++ whole ++ '.' :: Digits.toChars (ds.drop (ds.length - d.scale))

def text (d : Decimal) : String :=
  String.ofList d.chars

structure Reading where
  mantissa : Nat
  scale : Nat
  pointed : Bool
  started : Bool

def Reading.start : Reading := ⟨0, 0, false, false⟩

def Reading.finish? (negative : Bool) (r : Reading) : Option Decimal :=
  if r.started then ofParts? negative r.mantissa r.scale else none

def isDropped (c : Char) : Bool :=
  (Digit.ofChar? c).isSome || c = '_'

/-- The decimal when there is no room for the next digit: it rounds the one before it, a half up.
What follows counts for nothing, but must still belong to a numeral. -/
def Reading.cut? (negative : Bool) (r : Reading) (next : Char) (rest : List Char) :
    Option Decimal := do
  let digit ← if next = '_' then some 0 else (Digit.ofChar? next).map (·.val)
  if !rest.all isDropped then none
  else if digit < 5 then r.finish? negative
  else if r.mantissa + 1 < limit then ofParts? negative (r.mantissa + 1) r.scale
  else if r.scale = 0 then none
  else ofParts? negative ((r.mantissa + 5) / 10) (r.scale - 1)

def Reading.isFull (r : Reading) : Bool :=
  r.pointed && maxScale ≤ r.scale

def readPlain? (negative : Bool) (r : Reading) : List Char → Option Decimal
  | [] => r.finish? negative
  | c :: rest =>
    if r.isFull then r.cut? negative c rest
    else
      match Digit.ofChar? c with
      | some d =>
        if r.mantissa * 10 + d.val < limit then
          readPlain? negative
            { r with
              mantissa := r.mantissa * 10 + d.val
              scale := if r.pointed then r.scale + 1 else r.scale
              started := true } rest
        else if r.pointed then r.cut? negative c rest
        else none
      | none =>
        if c = '.' ∧ !r.pointed then readPlain? negative { r with pointed := true } rest
        else if c = '_' ∧ r.started then readPlain? negative r rest
        else none

/-- Reads a plain numeral: a sign, digits with at most one point among them, and separators behind
the first digit. -/
def plainOfChars? : List Char → Option Decimal
  | '-' :: s => readPlain? true .start s
  | '+' :: s => readPlain? false .start s
  | s => readPlain? false .start s

/-- The decimal divided by a power of ten; it is rounded first if it has no room for the digits. It
keeps its sign, even when nothing is left but zeros. -/
def shiftDown? (d : Decimal) (power : Nat) : Option Decimal :=
  if power ≤ maxScale then
    let r := d.roundNearest (maxScale - power)
    some ⟨d.negative, r.mantissa, min (d.scale + power) maxScale, r.mantissa_lt,
      Nat.min_le_right _ _⟩
  else none

def shiftUp? (d : Decimal) (power : Nat) : Option Decimal :=
  if maxScale < power then none
  else if power ≤ d.scale then ofParts? d.negative d.mantissa (d.scale - power)
  else ofParts? d.negative (d.mantissa * 10 ^ (power - d.scale)) 0

def applyExponent? (d : Decimal) : List Char → Option Decimal
  | '-' :: e => (Digits.signedNatural? e).bind d.shiftDown?
  | e => (Digits.signedNatural? e).bind d.shiftUp?

def isExponentMark (c : Char) : Bool :=
  c = 'e' || c = 'E'

def scientificOfChars? (s : List Char) : Option Decimal :=
  match s.dropWhile (!isExponentMark ·) with
  | [] => none
  | _ :: e => (plainOfChars? (s.takeWhile (!isExponentMark ·))).bind (applyExponent? · e)

/-- The decimal that a text denotes in plain or, failing that, in scientific notation. -/
def parse? (s : String) : Option Decimal :=
  (plainOfChars? s.toList).or (scientificOfChars? s.toList)

end VenueSigner.Decimal
