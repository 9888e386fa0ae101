import VenueSigner.Text.Digits
/-!
Number literals of JSON: how one is spelled, kept apart from the value that it is read as.
-/

namespace VenueSigner.Json

/-- A number as it is written: a sign, a whole part, the digits behind the point, and a power of
ten. -/
structure Literal where
  negative : Bool
  whole : Nat
  fraction : List Digit
  exponent : Option Int
deriving DecidableEq

namespace Literal

def ofNat (n : Nat) : Literal :=
  ⟨false, n, [], none⟩

def ofInt (n : Int) : Literal :=
  ⟨decide (n < 0), n.natAbs, [], none⟩

def natural? (l : Literal) : Option Nat :=
  if !l.negative && l.fraction.isEmpty && l.exponent.isNone then some l.whole else none

@[simp] theorem natural?_ofNat (n : Nat) : (ofNat n).natural? = some n := rfl

def exponentChars : Option Int → List Char
  | none => []
  | some (.ofNat n) => 'e' :: '+' :: Digits.toChars (Digits.ofNat n)
  | some (.negSucc n) => 'e' :: '-' :: Digits.toChars (Digits.ofNat (n + 1))

def fractionChars : List Digit → List Char
  | [] => []
  | ds => '.' :: Digits.toChars ds

def chars (l : Literal) : List Char :=
  (if l.negative then ['-'] else []) ++ Digits.toChars (Digits.ofNat l.whole) ++
    fractionChars l.fraction ++ exponentChars l.exponent

def readWhole? (s : List Char) : Option (Nat × List Char) :=
  match Digits.span s with
  | ([], _) => none
  | (d :: ds, rest) => if d = 0 ∧ ds ≠ [] then none else some (Positional.value (d :: ds), rest)

def readFraction? : List Char → Option (List Digit × List Char)
  | '.' :: s =>
    match Digits.span s with
    | ([], _) => none
    | found => some found
  | s => some ([], s)

def readPower? (negative : Bool) (s : List Char) : Option (Option Int × List Char) :=
  match Digits.span s with
  | ([], _) => none
  | (ds, rest) =>
    let n : Int := Positional.value ds
    some (some (if negative then -n else n), rest)

def readExponent? : List Char → Option (Option Int × List Char)
  | 'e' :: '+' :: s => readPower? false s
  | 'e' :: '-' :: s => readPower? true s
  | 'e' :: s => readPower? false s
  | 'E' :: '+' :: s => readPower? false s
  | 'E' :: '-' :: s => readPower? true s
  | 'E' :: s => readPower? false s
  | s => some (none, s)

def readUnsigned? (negative : Bool) (s : List Char) : Option (Literal × List Char) := do
  let (whole, s) ← readWhole? s
  let (fraction, s) ← readFraction? s
  let (exponent, s) ← readExponent? s
  return (⟨negative, whole, fraction, exponent⟩, s)

/-- Reads the longest literal at the head of a text, and returns what follows it. -/
def read? : List Char → Option (Literal × List Char)
  | '-' :: s => readUnsigned? true s
  | s => readUnsigned? false s

end Literal

end VenueSigner.Json
