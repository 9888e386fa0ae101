import VenueSigner.Error
import VenueSigner.Json.Value
/-!
Settings: what a configuration file says about a key, read as a text or as a number, whichever the
key needs.
-/

namespace VenueSigner

open Json (Value)

inductive Setting
  | absent
  | flag (b : Bool)
  | whole (n : Int)
  | binary (x : Binary64)
  | infinite (negative : Bool)
  | undefined
  | text (s : String)
  | nested
deriving DecidableEq

/-- Keys with what is said about them; the first of equal keys counts. -/
abbrev Settings := List (String × Setting)

namespace Setting

def ofValue : Value → Setting
  | .null => absent
  | .bool b => flag b
  | .number (.int n) => whole n
  | .number (.binary x) => binary x
  | .text s => text s
  | .list _ => nested
  | .record _ => nested

def asText : Setting → Result (Option String)
  | absent => .ok none
  | flag b => .ok (some (if b then "true" else "false"))
  | whole n => .ok (some (Digits.intText n))
  | binary x => .ok (some x.positional)
  | infinite negative => .ok (some (if negative then "-inf" else "inf"))
  | undefined => .ok (some "NaN")
  | text s => .ok (some s)
  | nested => .error .configFile

def limit : Nat := 2 ^ 64 - 1

/-- The nearest number that a setting can be, a half rounded away from zero. -/
def round (x : Binary64) : Nat :=
  if x.negative then 0
  else
    let (num, den) := x.fraction
    min limit (Rounding.divHalfUp num den)

def words : List (String × Bool) := [
  ("true", true), ("on", true), ("yes", true), ("false", false), ("off", false), ("no", false)]

def numberOfText? (s : String) : Option Nat :=
  match words.lookup (String.ofList (s.toList.map Char.toLower)) with
  | some b => some b.toNat
  | none => Digits.signedNatural? s.toList

def natural? : Setting → Option Nat
  | absent => none
  | flag b => some b.toNat
  | whole n => if 0 ≤ n then some n.natAbs else none
  | binary x => some (round x)
  | infinite negative => some (if negative then 0 else limit)
  | undefined => some 0
  | text s => numberOfText? s
  | nested => none

def asUint (bits : Nat) : Setting → Result (Option (Uint bits))
  | absent => .ok none
  | s =>
    match s.natural?.bind (Uint.ofNat? bits) with
    | some n => .ok (some n)
    | none => .error .configFile

end Setting

def Settings.get (s : Settings) (key : String) : Setting :=
  (s.lookup key).getD .absent

end VenueSigner
