import VenueSigner.Curve.Signature
import VenueSigner.Order.Order
/-!
Orders on the wire: the record that a signed order is posted in.
-/

namespace VenueSigner

open Json (Slot Tree)

/-- An order with its signature, as a record of texts and small numbers. -/
structure PostedOrder where
  salt : Uint64
  maker : String
  signer : String
  taker : String
  tokenId : String
  makerAmount : String
  takerAmount : String
  expiration : String
  nonce : String
  feeRateBps : String
  side : Side
  signatureType : Uint 8
  signature : String
deriving DecidableEq

structure Posting where
  order : PostedOrder
  owner : String
  timeInForce : TimeInForce
deriving DecidableEq

/-- An order with its signature; the owner is the key of the client that posts it. -/
structure SignedOrder where
  order : Order
  signature : Signature
  timeInForce : TimeInForce
  owner : String
deriving DecidableEq

namespace PostedOrder

def names : List String := [
  "salt", "maker", "signer", "taker", "tokenId", "makerAmount", "takerAmount", "expiration",
  "nonce", "feeRateBps", "side", "signatureType", "signature"]

def ofTree? (t : Tree) : Option PostedOrder :=
  match t.slots? names with
  | some [salt, maker, signer, taker, tokenId, makerAmount, takerAmount, expiration, nonce, fee,
      side, signatureType, signature] => do
    return {
      salt := ← Slot.required? (Tree.uint? 64) salt
      maker := ← Slot.required? Tree.text? maker
      signer := ← Slot.required? Tree.text? signer
      taker := ← Slot.required? Tree.text? taker
      tokenId := ← Slot.required? Tree.text? tokenId
      makerAmount := ← Slot.required? Tree.text? makerAmount
      takerAmount := ← Slot.required? Tree.text? takerAmount
      expiration := ← Slot.required? Tree.text? expiration
      nonce := ← Slot.required? Tree.text? nonce
      feeRateBps := ← Slot.required? Tree.text? fee
      side := ← Slot.required? Side.ofTree? side
      signatureType := ← Slot.required? (Tree.uint? 8) signatureType
      signature := ← Slot.required? Tree.text? signature }
  | _ => none

def toTree (o : PostedOrder) : Tree :=
  .ofMembers [("salt", .ofUint o.salt), ("maker", .ofText o.maker), ("signer", .ofText o.signer),
    ("taker", .ofText o.taker), ("tokenId", .ofText o.tokenId),
    ("makerAmount", .ofText o.makerAmount), ("takerAmount", .ofText o.takerAmount),
    ("expiration", .ofText o.expiration), ("nonce", .ofText o.nonce),
    ("feeRateBps", .ofText o.feeRateBps), ("side", o.side.toTree),
    ("signatureType", .ofUint o.signatureType), ("signature", .ofText o.signature)]

end PostedOrder

namespace SignatureKind

def byte (k : SignatureKind) : Uint 8 :=
  ⟨k.number, by cases k <;> decide⟩

end SignatureKind

namespace SignedOrder

def posting (s : SignedOrder) (owner : String) (tif : TimeInForce) : Posting where
  owner := owner
  timeInForce := tif
  order :=
    { salt := s.order.salt
      maker := s.order.maker.checksum
      signer := s.order.signer.checksum
      taker := s.order.taker.checksum
      tokenId := s.order.tokenId.text
      makerAmount := Digits.text s.order.makerAmount.val
      takerAmount := Digits.text s.order.takerAmount.val
      expiration := Digits.text s.order.expiration.val
      nonce := Digits.text s.order.nonce.val
      feeRateBps := Digits.text s.order.feeRateBps.val
      side := s.order.side
      signatureType := s.order.signatureKind.byte
      signature := s.signature.text }

end SignedOrder

namespace Posting

def ofTree? (t : Tree) : Option Posting :=
  match t.slots? ["order", "owner", "orderType"] with
  | some [order, owner, timeInForce] => do
    return ⟨← Slot.required? PostedOrder.ofTree? order, ← Slot.required? Tree.text? owner,
      ← Slot.required? TimeInForce.ofTree? timeInForce⟩
  | _ => none

def toTree (p : Posting) : Tree :=
  .ofMembers [("order", p.order.toTree), ("owner", .ofText p.owner),
    ("orderType", p.timeInForce.toTree)]

end Posting

end VenueSigner
