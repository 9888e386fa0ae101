import VenueSigner.Auth.Credentials
import VenueSigner.Order.Builder
/-!
Configurations: the key to sign with, the chain, the account that pays, and what requests are made
with.
-/

namespace VenueSigner

/-- The configuration of a client. The key is kept as written and only looked at when a signer is
made. -/
structure Config where
  chainId : Uint64
  privateKey : String
  signatureKind : SignatureKind
  funder : Option Address
  credentials : Option Credentials
deriving DecidableEq

/-- The parts of a configuration as a file gives them: each is of its kind, but none was looked
into. -/
structure ConfigDraft where
  privateKey : Option String
  chainId : Option Uint64
  signatureType : Option (Uint 8)
  funder : Option String
  apiKey : Option String
  apiSecret : Option String
  apiPassphrase : Option String
deriving DecidableEq

namespace Config

def signatureKindOf (n : Nat) : Result SignatureKind :=
  match SignatureKind.ofNumber? n with
  | some k => .ok k
  | none => .error (.signatureKindRange n)

def funderOf : Option String → Result (Option Address)
  | none => .ok none
  | some s =>
    if (Blank.trim s).isEmpty then .ok none
    else ((Address.parse s).map some).mapError .badFunder

def credentialsOf : (key secret passphrase : Option String) → Result (Option Credentials)
  | some key, some secret, some passphrase => .ok (some ⟨key, secret, passphrase⟩)
  | none, none, none => .ok none
  | _, _, _ => .error .partialCredentials

/-- The configuration of a draft; the first fault in the order key, kind of signature, funder,
credentials is reported. -/
def ofDraft (d : ConfigDraft) : Result Config := do
  let some privateKey := d.privateKey | throw .keyMissing
  let signatureKind ← signatureKindOf ((d.signatureType.map (·.val)).getD 0)
  let funder ← funderOf d.funder
  let credentials ← credentialsOf d.apiKey d.apiSecret d.apiPassphrase
  let chainId := d.chainId.getD Contracts.polygon
  return { chainId, privateKey, signatureKind, funder, credentials }

def authLevel (c : Config) : AuthLevel :=
  if c.credentials.isSome then .l2 else .l1

def signer (c : Config) : Result Signer :=
  (Signer.ofSecret c.privateKey c.chainId).mapError .badKey

def orderBuilder (c : Config) : Result OrderBuilder := do
  return .ofSigner (← c.signer) c.signatureKind c.funder

def describeOption {α : Type} (describe : α → String) : Option α → String
  | none => "None"
  | some a => "Some(" ++ describe a ++ ")"

def describe (c : Config) : String :=
  "Config \x7b chain_id: " ++ Digits.text c.chainId.val ++
    ", private_key: " ++ Quoted.text "[REDACTED]" ++
    ", signature_type: " ++ c.signatureKind.label ++
    ", funder: " ++ describeOption Address.lowercase c.funder ++
    ", credentials: " ++ describeOption Credentials.describe c.credentials ++ " \x7d"

end Config

end VenueSigner
