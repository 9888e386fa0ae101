import VenueSigner.Json.Binary64
import VenueSigner.Json.Literal
/-!
The numbers of JSON: a literal of a whole number that fits 64 bits is that integer, any other one is
a binary number, and each number has one spelling.
-/

namespace VenueSigner.Json

inductive Number
  | int (n : Int)
  | binary (x : Binary64)
deriving DecidableEq

namespace Number

def extend (n : Nat) : List Digit → Nat × List Digit
  | [] => (n, [])
  | d :: rest => if n * 10 + d.val < 2 ^ 64 then extend (n * 10 + d.val) rest else (n, d :: rest)

/-- The binary number of a literal: the leading digits that fit 64 bits, scaled by the power of
ten. -/
def binaryOf? (l : Literal) : Option Binary64 := do
  let (whole, beyond) := extend 0 (Digits.ofNat l.whole)
  let (significand, dropped) := extend whole l.fraction
  let power : Int := beyond.length - (l.fraction.length - dropped.length) + l.exponent.getD 0
  let x ← Binary64.scaled? significand power
  return { x with negative := l.negative }

/-- The number of a literal; there is none if it is too large for a binary number. -/
def ofLiteral? (l : Literal) : Option Number :=
  if l.fraction.isEmpty && l.exponent.isNone then
    if !l.negative && l.whole < 2 ^ 64 then some (.int l.whole)
    else if l.negative && 0 < l.whole && l.whole ≤ 2 ^ 63 then some (.int (-l.whole))
    else (binaryOf? l).map .binary
  else (binaryOf? l).map .binary

/-- The spelling of a binary number: positional from `1e-5` up to `1e16`, else with an exponent. -/
def binaryLiteral (x : Binary64) : Literal :=
  if x.mantissa = 0 then ⟨x.negative, 0, [0], none⟩
  else
    let n := x.shortest
    let point : Int := n.digits.length + n.power
    if 0 ≤ n.power ∧ point ≤ 16 then
      ⟨x.negative, Positional.value n.digits * 10 ^ n.power.natAbs, [0], none⟩
    else if 0 < point ∧ point ≤ 16 then
      ⟨x.negative, Positional.value (n.digits.take point.natAbs), n.digits.drop point.natAbs, none⟩
    else if -5 < point ∧ point ≤ 0 then
      ⟨x.negative, 0, List.replicate point.natAbs 0 ++ n.digits, none⟩
    else
      ⟨x.negative, Positional.value (n.digits.take 1), n.digits.drop 1, some (point - 1)⟩

def literal : Number → Literal
  | int n => .ofInt n
  | binary x => binaryLiteral x

end Number

end VenueSigner.Json
