import VenueSigner.Error
import VenueSigner.Json.Record
/-!
The choices that an order makes: its side, how long it stands, and how its signature is checked.
-/

namespace VenueSigner

open Json (Tree)

inductive Side
  | buy
  | sell
deriving DecidableEq

namespace Side

def all : List Side := [buy, sell]

def name : Side → String
  | buy => "BUY"
  | sell => "SELL"

def number : Side → Nat
  | buy => 0
  | sell => 1

def ofText (s : String) : Result Side :=
  match all.find? (·.name.toList = s.toList.map Char.toUpper) with
  | some side => .ok side
  | none => .error (.unknownSide s)

def ofNumber (n : Nat) : Result Side :=
  match all.find? (·.number = n) with
  | some side => .ok side
  | none => .error (.unknownSide (Digits.text n))

def ofTree? : Tree → Option Side := Tree.oneOf? all name

def toTree (s : Side) : Tree := .ofText s.name

end Side

inductive TimeInForce
  | goodTillCancelled
  | fillOrKill
  | goodTillDate
  | fillAndKill
deriving DecidableEq

namespace TimeInForce

def all : List TimeInForce := [goodTillCancelled, fillOrKill, goodTillDate, fillAndKill]

def name : TimeInForce → String
  | goodTillCancelled => "GTC"
  | fillOrKill => "FOK"
  | goodTillDate => "GTD"
  | fillAndKill => "FAK"

def ofTree? : Tree → Option TimeInForce := Tree.oneOf? all name

def toTree (t : TimeInForce) : Tree := .ofText t.name

end TimeInForce

/-- Which kind of account the signature of an order speaks for. -/
inductive SignatureKind
  | externallyOwned
  | proxyWallet
  | safeWallet
deriving DecidableEq

namespace SignatureKind

def all : List SignatureKind := [externallyOwned, proxyWallet, safeWallet]

def number : SignatureKind → Nat
  | externallyOwned => 0
  | proxyWallet => 1
  | safeWallet => 2

def label : SignatureKind → String
  | externallyOwned => "Eoa"
  | proxyWallet => "PolyProxy"
  | safeWallet => "PolyGnosisSafe"

def ofNumber? (n : Nat) : Option SignatureKind :=
  all.find? (·.number = n)

theorem ofNumber?_eq_some_iff {n : Nat} {k : SignatureKind} :
    ofNumber? n = some k ↔ k.number = n := by
  constructor
  · intro h
    simpa using List.find?_some h
  · rintro rfl
    cases k <;> rfl

def ofNumber (n : Nat) : Result SignatureKind :=
  match ofNumber? n with
  | some k => .ok k
  | none => .error (.unknownSignatureKind n)

def ofTree? (t : Tree) : Option SignatureKind :=
  t.natural?.bind ofNumber?

def toTree (k : SignatureKind) : Tree := .ofNat k.number

end SignatureKind

namespace TickSize

def parse (s : String) : Result TickSize :=
  match ofText? s with
  | some t => .ok t
  | none => .error (.unknownTickSize (Blank.trim s))

def ofTree? (t : Tree) : Option TickSize :=
  t.text?.bind ofText?

def toTree (t : TickSize) : Tree := .ofText t.text

end TickSize

namespace AuthLevel

def require (reached needed : AuthLevel) : Result Unit :=
  if needed.rank ≤ reached.rank then .ok () else .error (.insufficientLevel needed reached)

def ofTree? : Tree → Option AuthLevel := Tree.oneOf? all name

def toTree (l : AuthLevel) : Tree := .ofText l.name

end AuthLevel

end VenueSigner
