import VenueSigner.Auth.Credentials
import VenueSigner.Signer
/-!
The headers that prove who sends a request: a signature by the wallet to obtain credentials, and a
digest under these for every other request.
-/

namespace VenueSigner

open Json (Value)
open TypedData (Domain Member Schema)

/-- The names of headers with their values, sorted by name. -/
abbrev Headers := List (String × String)

namespace Attestation

def statement : String := "This message attests that I control the given wallet"

def struct : String := "ClobAuth"

def schema : Schema := .ofList [(struct, [
  ⟨"address", "address"⟩, ⟨"timestamp", "string"⟩, ⟨"nonce", "uint256"⟩, ⟨"message", "string"⟩])]

def message (address : Address) (timestamp nonce : Uint64) : Value :=
  .ofMembers [
    ("address", .text address.checksum),
    ("timestamp", .text (Digits.text timestamp.val)),
    ("nonce", .number (.int nonce.val)),
    ("message", .text statement)]

end Attestation

namespace Signer

def signAttestation (s : Signer) (timestamp nonce : Uint64) : Result String :=
  s.signTypedData (.attestation s.chainId) Attestation.struct
    (Attestation.message s.address timestamp nonce) Attestation.schema

def walletHeaders (s : Signer) (timestamp : Uint64) (nonce : Option Uint64) : Result Headers := do
  let nonce := nonce.getD (Uint.zero 64)
  let signature ← s.signAttestation timestamp nonce
  return [
    ("POLY_ADDRESS", s.address.checksum),
    ("POLY_NONCE", Digits.text nonce.val),
    ("POLY_SIGNATURE", signature),
    ("POLY_TIMESTAMP", Digits.text timestamp.val)]

def requestHeaders (s : Signer) (c : Credentials) (timestamp : Uint64) (method path : String)
    (body : Option String) : Result Headers := do
  let digest ← Credentials.requestDigest c.secret timestamp method path body
  return [
    ("POLY_ADDRESS", s.address.lowercase),
    ("POLY_API_KEY", c.key),
    ("POLY_PASSPHRASE", c.passphrase),
    ("POLY_SIGNATURE", digest),
    ("POLY_TIMESTAMP", Digits.text timestamp.val)]

end Signer

end VenueSigner
