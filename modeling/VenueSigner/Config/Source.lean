import VenueSigner.Config.Basic
import VenueSigner.Config.Toml
/-!
Where configurations come from: variables of the environment alone, or a file whose keys such
variables replace.
-/

namespace VenueSigner

open Json (Value)

abbrev Environment := List (String × String)

namespace ConfigDraft

def ofSettings (s : Settings) : Result ConfigDraft := do
  let privateKey ← (s.get "private_key").asText
  let chainId ← (s.get "chain_id").asUint 64
  let signatureType ← (s.get "signature_type").asUint 8
  let funder ← (s.get "funder").asText
  let apiKey ← (s.get "api_key").asText
  let apiSecret ← (s.get "api_secret").asText
  let apiPassphrase ← (s.get "api_passphrase").asText
  return { privateKey, chainId, signatureType, funder, apiKey, apiSecret, apiPassphrase }

end ConfigDraft

namespace Config

def numberOf? (bits : Nat) (s : String) : Option (Uint bits) :=
  (Digits.signedNatural? (Blank.trim s).toList).bind (Uint.ofNat? bits)

def chainIdOf : Option String → Result Uint64
  | none => .ok Contracts.polygon
  | some s =>
    match numberOf? 64 s with
    | some n => .ok n
    | none => .error (.chainIdNotNumber s)

def signatureKindOfText : Option String → Result SignatureKind
  | none => .ok .externallyOwned
  | some s =>
    match numberOf? 8 s with
    | some n => signatureKindOf n.val
    | none => .error (.signatureKindNotNumber s)

/-- The configuration that variables make, each looked up by its name; the first fault in the order
of the fields is reported. -/
def ofLookup (lookup : String → Option String) : Result Config := do
  let some privateKey := lookup "CLOB_PRIVATE_KEY" | throw .keyNotSet
  let chainId ← chainIdOf (lookup "CLOB_CHAIN_ID")
  let signatureKind ← signatureKindOfText (lookup "CLOB_SIGNATURE_TYPE")
  let funder ← funderOf (lookup "CLOB_FUNDER")
  let credentials ← credentialsOf (lookup "POLY_API_KEY") (lookup "POLY_API_SECRET")
    (lookup "POLY_API_PASSPHRASE")
  return { chainId, privateKey, signatureKind, funder, credentials }

def ofEnvironment (env : Environment) : Result Config :=
  ofLookup fun name => env.lookup name

inductive Format
  | json
  | toml
deriving DecidableEq

namespace Format

def ofExtension? : String → Option Format
  | "json" => some json
  | "toml" => some toml
  | _ => none

def dropByteOrderMark (s : String) : String :=
  match s.toList with
  | '\uFEFF' :: rest => String.ofList rest
  | _ => s

def settings? (f : Format) (content : String) : Option Settings :=
  match f with
  | toml => Toml.parse? (dropByteOrderMark content)
  | json =>
    match Value.parse? (dropByteOrderMark content) with
    | some (.record members) => some (members.map fun m => (m.1, .ofValue m.2))
    | _ => none

end Format

/-- The key that a variable replaces: its name in lowercase behind the mark `clob_`. -/
def overriddenKey? (name : String) : Option String :=
  match name.toList.map Char.toLower with
  | 'c' :: 'l' :: 'o' :: 'b' :: '_' :: key => some (String.ofList key)
  | _ => none

/-- The settings that the environment makes, the last first, as a later variable replaces an earlier
one. -/
def overrides (env : Environment) : Settings :=
  (env.filterMap fun v => (overriddenKey? v.1).map fun key => (key, Setting.text v.2)).reverse

/-- The draft in a file with an extension, if there is the file; variables of the environment
replace its keys. -/
def draftOfFile (extension : String) (content : Option String) (env : Environment) :
    Result ConfigDraft :=
  match (Format.ofExtension? extension).bind fun f => content.bind f.settings? with
  | some settings => ConfigDraft.ofSettings (overrides env ++ settings)
  | none => .error .configFile

def ofFile (extension : String) (content : Option String) (env : Environment) : Result Config := do
  ofDraft (← draftOfFile extension content env)

end Config

end VenueSigner
