import VenueSigner.Order.Basic
import VenueSigner.TypedData.Payload
/-!
Orders as the exchange contract knows them, the message that stands for one, and the digest that is
signed.
-/

namespace VenueSigner

open Json (Value)
open TypedData (Domain Member Schema)

/-- An order: the account that pays, the one that signs, the one that may take it, and what it is
about. -/
structure Order where
  salt : Uint64
  maker : Address
  signer : Address
  taker : Address
  tokenId : Uint256
  makerAmount : Uint64
  takerAmount : Uint64
  expiration : Uint64
  nonce : Uint64
  feeRateBps : Uint64
  side : Side
  signatureKind : SignatureKind
deriving DecidableEq

namespace Order

def struct : String := "Order"

def members : List Member := [
  ⟨"salt", "uint256"⟩, ⟨"maker", "address"⟩, ⟨"signer", "address"⟩, ⟨"taker", "address"⟩,
  ⟨"tokenId", "uint256"⟩, ⟨"makerAmount", "uint256"⟩, ⟨"takerAmount", "uint256"⟩,
  ⟨"expiration", "uint256"⟩, ⟨"nonce", "uint256"⟩, ⟨"feeRateBps", "uint256"⟩,
  ⟨"side", "uint8"⟩, ⟨"signatureType", "uint8"⟩]

def schema : Schema := .ofList [(struct, members)]

def numeral {bits : Nat} (n : Uint bits) : Value :=
  .text (Digits.text n.val)

def message (o : Order) : Value :=
  .ofMembers [
    ("salt", numeral o.salt),
    ("maker", .text o.maker.checksum),
    ("signer", .text o.signer.checksum),
    ("taker", .text o.taker.checksum),
    ("tokenId", numeral o.tokenId),
    ("makerAmount", numeral o.makerAmount),
    ("takerAmount", numeral o.takerAmount),
    ("expiration", numeral o.expiration),
    ("nonce", numeral o.nonce),
    ("feeRateBps", numeral o.feeRateBps),
    ("side", .number (.int o.side.number)),
    ("signatureType", .number (.int o.signatureKind.number))]

def structHash (o : Order) : Result Word :=
  schema.hashStruct struct o.message

def signingHash (o : Order) (d : Domain) : Result Word := do
  return TypedData.signingDigest d.separator (← o.structHash)

end Order

end VenueSigner
