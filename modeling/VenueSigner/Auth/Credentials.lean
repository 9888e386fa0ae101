import VenueSigner.Error
import VenueSigner.Hash.Sha256
import VenueSigner.Json.Record
/-!
Keys for requests: the secret is base64 in either alphabet, with or without fillers, and each
request carries a keyed digest of what it asks for.
-/

namespace VenueSigner

open Json (Slot Tree)

structure Credentials where
  key : String
  secret : String
  passphrase : String
deriving DecidableEq

namespace Credentials

/-- The symbol of the standard alphabet for one of either alphabet. -/
def standardSymbol (b : UInt8) : UInt8 :=
  if b = Base64.urlSafe.symbol62 then Base64.standard.symbol62
  else if b = Base64.urlSafe.symbol63 then Base64.standard.symbol63
  else b

def fill (b : Bytes) : Bytes :=
  b ++ List.replicate ((4 - b.length % 4) % 4) Base64.filler

/-- The bytes of a secret, blanks at its ends aside. -/
def decodeSecret (secret : String) : Result Bytes :=
  let text := fill ((Bytes.ofText (Blank.trim secret)).map standardSymbol)
  (Base64.decode Base64.standard text).mapError .secretNotBase64

/-- What the digest of a request covers: time, method, path and body. -/
def requestBytes (timestamp : Uint64) (method path : String) (body : Option String) : Bytes :=
  Bytes.ofText (Digits.text timestamp.val) ++ Bytes.ofText method ++ Bytes.ofText path ++
    Bytes.ofText (body.getD "")

def requestDigest (secret : String) (timestamp : Uint64) (method path : String)
    (body : Option String) : Result String := do
  let key ← decodeSecret secret
  return Base64.encodeText Base64.urlSafe
    (Hmac.digest key (requestBytes timestamp method path body)).bytes

def describe (_ : Credentials) : String :=
  let hidden := Quoted.text "[REDACTED]"
  "ApiCredentials \x7b api_key: " ++ hidden ++ ", api_secret: " ++ hidden ++
    ", api_passphrase: " ++ hidden ++ " \x7d"

def ofTree? (t : Tree) : Option Credentials :=
  match t.slots? ["apiKey", "secret", "passphrase"] with
  | some [key, secret, passphrase] => do
    return ⟨← Slot.required? Tree.text? key, ← Slot.required? Tree.text? secret,
      ← Slot.required? Tree.text? passphrase⟩
  | _ => none

def toTree (c : Credentials) : Tree :=
  .ofMembers [("apiKey", .ofText c.key), ("secret", .ofText c.secret),
    ("passphrase", .ofText c.passphrase)]

end Credentials

end VenueSigner
