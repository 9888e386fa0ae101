import VenueSigner.Curve.Signature
import VenueSigner.TypedData.Payload
/-!
Signers: a secret key with the address it belongs to, on a chain.
-/

namespace VenueSigner

open Json (Value)
open TypedData (Domain Schema)

/-- A secret key with its address, and the chain that it signs for. -/
structure Signer where
  key : SecretKey
  address : Address
  chainId : Uint64

namespace SecretKey

def address (k : SecretKey) : Address :=
  ⟨(Keccak.digest k.publicBytes).bytes.drop 12, by
    simp [(Keccak.digest k.publicBytes).length_eq]⟩

def parse (s : String) : Result SecretKey :=
  match Hex.decode (Blank.trim s) with
  | .error _ => .error .secretNotHex
  | .ok b =>
    if b.length ≠ 32 then .error (.secretLength b.length)
    else
      match ofNat? b.toNat with
      | some k => .ok k
      | none => .error .secretOutOfRange

end SecretKey

namespace Signer

def ofKey (k : SecretKey) (chainId : Uint64) : Signer :=
  ⟨k, k.address, chainId⟩

def ofSecret (secret : String) (chainId : Uint64) : Result Signer := do
  return ofKey (← SecretKey.parse secret) chainId

def require : Option Signature → Result Signature
  | some signature => .ok signature
  | none => .error .signing

def signWord (s : Signer) (digest : Word) : Result Signature :=
  require (s.key.sign? digest)

theorem require_eq_ok_iff {signature : Option Signature} {x : Signature} :
    require signature = .ok x ↔ signature = some x := by
  cases signature with
  | none => exact ⟨nofun, nofun⟩
  | some y => rw [require, Except.ok.injEq, Option.some.injEq]

theorem signWord_eq_ok_iff {s : Signer} {digest : Word} {x : Signature} :
    s.signWord digest = .ok x ↔ s.key.sign? digest = some x :=
  require_eq_ok_iff

theorem error_of_require {signature : Option Signature} {e : Error}
    (h : require signature = .error e) : e = .signing ∧ signature = none := by
  cases signature with
  | none => exact ⟨(Except.error.inj h).symm, rfl⟩
  | some signature => contradiction

theorem error_of_signWord {s : Signer} {digest : Word} {e : Error}
    (h : s.signWord digest = .error e) : e = .signing ∧ s.key.sign? digest = none :=
  error_of_require h

def signHash (s : Signer) (digest : Bytes) : Result Signature :=
  match FixedBytes.ofBytes? 32 digest with
  | some w => s.signWord w
  | none => .error (.digestLength digest.length)

def signText (s : Signer) (digest : Word) : Result String := do
  return (← s.signWord digest).text

def signTypedData (s : Signer) (d : Domain) (struct : String) (message : Value) (schema : Schema) :
    Result String := do
  s.signText (← TypedData.signingHash d schema struct message)

def describe (s : Signer) : String :=
  "Signer \x7b address: " ++ Quoted.text s.address.checksum ++ ", chain_id: " ++
    Digits.text s.chainId.val ++ ", .. \x7d"

end Signer

end VenueSigner
