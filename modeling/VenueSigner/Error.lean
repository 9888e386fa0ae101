import VenueSigner.Decimal.Text
import VenueSigner.Market.TickSize
import VenueSigner.Text.Base64
import VenueSigner.Text.Characters
import VenueSigner.Text.Hex
import VenueSigner.Uint
/-!
What can go wrong: one constructor for each cause, the kind that causes belong to, and the message
of each.
-/

namespace VenueSigner

/-- How far a client has proved who it is. -/
inductive AuthLevel
  | l0
  | l1
  | l2
deriving DecidableEq

namespace AuthLevel

def rank : AuthLevel → Nat
  | l0 => 0
  | l1 => 1
  | l2 => 2

def name : AuthLevel → String
  | l0 => "L0"
  | l1 => "L1"
  | l2 => "L2"

def all : List AuthLevel := [l0, l1, l2]

end AuthLevel

inductive Expected
  | text
  | hexText
  | boolean
  | integer
  | record
deriving DecidableEq

inductive Error
  | secretNotHex
  | secretLength (found : Nat)
  | secretOutOfRange
  | addressNotHex (text : String)
  | addressLength (text : String) (found : Nat)
  | unknownTickSize (text : String)
  | exceedsWord (text : String)
  | exceedsKind (number kind : String)
  | exceedsDecimal (value : Decimal)
  | exceedsBaseUnits (value : Decimal)
  | productOverflow (a b : Decimal)
  | depthOverflow (sum filled : Decimal)
  | recoveryOverflow (chainId : Uint64)
  | unsupportedKind (kind : String)
  | unknownStruct (name : String)
  | missingMember (struct member : String)
  | notDecimal (text : String)
  | unexpected (kind : String) (expected : Expected)
  | notNatural (kind number : String)
  | tooManyBytes (kind : String) (found allowed : Nat)
  | returnTooShort (found : Nat)
  | returnNotBool (value : Nat)
  | unknownSignatureKind (value : Nat)
  | cannotDivide (price : Decimal)
  | priceMissing
  | priceOutside (price : Decimal) (tick : TickSize)
  | digestLength (found : Nat)
  | unknownSide (text : String)
  | unsupportedChain (chainId : Uint64)
  | noMatch
  | insufficientLevel (required actual : AuthLevel)
  | secretNotBase64 (problem : Base64.Problem)
  | notHex (bad : Hex.BadDigit)
  | signing
  | configFile
  | keyNotSet
  | keyMissing
  | chainIdNotNumber (text : String)
  | signatureKindNotNumber (text : String)
  | signatureKindRange (value : Nat)
  | badFunder (cause : Error)
  | badKey (cause : Error)
  | partialCredentials

inductive ErrorKind
  | invalidKey
  | invalidAddress
  | invalidTickSize
  | numericOverflow
  | unsupportedType
  | missingMember
  | invalidValue
  | invalidDigest
  | invalidSide
  | unsupportedChain
  | noMatch
  | insufficientAuthLevel
  | invalidCredentials
  | invalidHex
  | signing
  | configFile
  | config
deriving DecidableEq

namespace Error

def kind : Error → ErrorKind
  | secretNotHex | secretLength _ | secretOutOfRange => .invalidKey
  | addressNotHex _ | addressLength _ _ => .invalidAddress
  | unknownTickSize _ => .invalidTickSize
  | exceedsWord _ | exceedsKind _ _ | exceedsDecimal _ | exceedsBaseUnits _ | productOverflow _ _
  | depthOverflow _ _ | recoveryOverflow _ => .numericOverflow
  | unsupportedKind _ => .unsupportedType
  | unknownStruct _ | missingMember _ _ => .missingMember
  | notDecimal _ | unexpected _ _ | notNatural _ _ | tooManyBytes _ _ _ | returnTooShort _
  | returnNotBool _ | unknownSignatureKind _ | cannotDivide _ | priceMissing
  | priceOutside _ _ => .invalidValue
  | digestLength _ => .invalidDigest
  | unknownSide _ => .invalidSide
  | unsupportedChain _ => .unsupportedChain
  | noMatch => .noMatch
  | insufficientLevel _ _ => .insufficientAuthLevel
  | secretNotBase64 _ => .invalidCredentials
  | notHex _ => .invalidHex
  | signing => .signing
  | configFile => .configFile
  | keyNotSet | keyMissing | chainIdNotNumber _ | signatureKindNotNumber _ | signatureKindRange _
  | badFunder _ | badKey _ | partialCredentials => .config

end Error

def Expected.words : Expected → String
  | .text => "expected a string"
  | .hexText => "expected a hex string"
  | .boolean => "expected a boolean"
  | .integer => "expected an integer"
  | .record => "expected a JSON object"

def Hex.BadDigit.words (bad : Hex.BadDigit) : String :=
  "Invalid character " ++ Quoted.char (Char.ofNat bad.byte.toNat) ++ " at position " ++
    Digits.text bad.position

def Base64.Problem.words : Base64.Problem → String
  | .symbol b offset =>
    "Invalid symbol " ++ Digits.text b.toNat ++ ", offset " ++ Digits.text offset ++ "."
  | .lastSymbol b offset =>
    "Invalid last symbol " ++ Digits.text b.toNat ++ ", offset " ++ Digits.text offset ++ "."

namespace Error

def invalidValue (field reason : String) : String :=
  "Invalid value for " ++ field ++ ": " ++ reason

def message : Error → String
  | secretNotHex => "Invalid private key: secret is not valid hex"
  | secretLength found =>
    "Invalid private key: expected 32 bytes, got " ++ Digits.text found
  | secretOutOfRange => "Invalid private key: signature error"
  | addressNotHex text => "Invalid address: " ++ text
  | addressLength text found =>
    "Invalid address: " ++ text ++ ": expected 20 bytes, got " ++ Digits.text found
  | unknownTickSize text => "Invalid tick size: " ++ text
  | exceedsWord text => "Numeric overflow: " ++ text ++ " exceeds 32 bytes"
  | exceedsKind number kind => "Numeric overflow: " ++ number ++ " does not fit in " ++ kind
  | exceedsDecimal value => "Numeric overflow: " ++ value.text ++ " in base units"
  | exceedsBaseUnits value =>
    "Numeric overflow: " ++ value.text ++ " does not fit in u64 base units"
  | productOverflow a b => "Numeric overflow: " ++ a.text ++ " * " ++ b.text
  | depthOverflow sum filled =>
    "Numeric overflow: book depth " ++ sum.text ++ " + " ++ filled.text
  | recoveryOverflow chainId => "Numeric overflow: v for chain id " ++ Digits.text chainId.val
  | unsupportedKind kind => "Unsupported EIP-712 type: " ++ kind
  | unknownStruct name => "Missing typed data member: type " ++ name
  | missingMember struct member => "Missing typed data member: " ++ struct ++ "." ++ member
  | notDecimal text => invalidValue "uint256" ("not a decimal integer: " ++ Quoted.text text)
  | unexpected kind expected => invalidValue kind expected.words
  | notNatural kind number =>
    invalidValue kind
      (number ++ " is not a non-negative integer; pass large values as strings")
  | tooManyBytes kind found allowed =>
    invalidValue kind
      (Digits.text found ++ " bytes given, at most " ++ Digits.text allowed ++ " allowed")
  | returnTooShort found =>
    invalidValue "returndata" ("expected 32 bytes, got " ++ Digits.text found)
  | returnNotBool value => invalidValue "returndata" (Digits.text value ++ " is not a bool")
  | unknownSignatureKind value =>
    invalidValue "signatureType" ("unknown signature type " ++ Digits.text value)
  | cannotDivide price => invalidValue "price" ("cannot divide by " ++ price.text)
  | priceMissing => invalidValue "price" "market order price must be provided"
  | priceOutside price tick =>
    invalidValue "price"
      (price.text ++ " outside [" ++ tick.text ++ ", 1 - " ++ tick.text ++ "]")
  | digestLength found => "Digest must be 32 bytes, got " ++ Digits.text found
  | unknownSide text => "Invalid order side: " ++ text
  | unsupportedChain chainId => "Unsupported chain id: " ++ Digits.text chainId.val
  | noMatch => "No match"
  | insufficientLevel required actual =>
    "Insufficient auth level: " ++ required.name ++ " required, client is " ++ actual.name
  | secretNotBase64 problem =>
    "Invalid API credentials: API secret is not base64: " ++ problem.words
  | notHex bad => "Invalid hex: " ++ bad.words
  | signing => "Signing error: signature error"
  | configFile => "Configuration file error"
  | keyNotSet => "Configuration error: CLOB_PRIVATE_KEY environment variable not set"
  | keyMissing => "Configuration error: private_key is required"
  | chainIdNotNumber text =>
    "Configuration error: CLOB_CHAIN_ID '" ++ text ++ "' is not a number"
  | signatureKindNotNumber text =>
    "Configuration error: CLOB_SIGNATURE_TYPE '" ++ text ++ "' is not a number"
  | signatureKindRange value =>
    "Configuration error: signature type " ++ Digits.text value ++ " is not 0, 1 or 2"
  | badFunder cause => "Configuration error: funder: " ++ cause.message
  | badKey cause => "Configuration error: private key: " ++ cause.message
  | partialCredentials =>
    "Configuration error: API key, secret and passphrase must be set together"

end Error

abbrev Result (α : Type) := Except Error α

theorem Result.bind_eq_ok {ε α β : Type} {x : Except ε α} {f : α → Except ε β} {b : β} :
    (x >>= f) = .ok b ↔ ∃ a, x = .ok a ∧ f a = .ok b := by
  cases x with
  | error e =>
    constructor
    · intro h
      contradiction
    · rintro ⟨a, h, _⟩
      contradiction
  | ok a =>
    constructor
    · intro h
      exact ⟨a, rfl, h⟩
    · rintro ⟨a', same, h⟩
      rw [Except.ok.injEq] at same
      subst same
      exact h

theorem Result.eq_ok_of_toOption {α : Type} {x : Result α} {a : α} (h : x.toOption = some a) :
    x = .ok a := by
  cases x with
  | error e => cases h
  | ok b => exact congrArg Except.ok (Option.some.inj h)

theorem Result.error_of_bind {α β : Type} {x : Result α} {f : α → Result β} {e : Error}
    (h : (x >>= f) = .error e) : x = .error e ∨ ∃ a, x = .ok a ∧ f a = .error e := by
  cases x with
  | error e' => exact .inl (congrArg Except.error (Except.error.inj h))
  | ok a => exact .inr ⟨a, rfl, h⟩

end VenueSigner
