import VenueSigner.Chain.Rlp
import VenueSigner.Json.Record
import VenueSigner.Signer
import VenueSigner.Text.Digits
/-!
Transactions of the old form, signed for one chain: what is signed names the chain, and what is sent
names it through the first number of the signature.
-/

namespace VenueSigner

open Json (Slot Tree)

structure Transaction where
  nonce : Uint64
  gasPrice : Uint 128
  gasLimit : Uint64
  recipient : Address
  value : Uint256
  data : Bytes
  chainId : Uint64
deriving DecidableEq

/-- A signed transaction: the bytes to send, their digest, and the three numbers of the
signature. -/
structure SignedTransaction where
  raw : Bytes
  hash : Word
  v : Uint64
  r : Word
  s : Word
deriving DecidableEq

namespace SignedTransaction

def text (t : SignedTransaction) : String :=
  Hex.encodePrefixed t.raw

end SignedTransaction

namespace Transaction

def baseFields (t : Transaction) : List Bytes := [
  Rlp.encodeUint t.nonce, Rlp.encodeUint t.gasPrice, Rlp.encodeUint t.gasLimit,
  Rlp.encodeBytes t.recipient.bytes, Rlp.encodeUint t.value, Rlp.encodeBytes t.data]

def signingPayload (t : Transaction) : Bytes :=
  Rlp.encodeList
    (t.baseFields ++ [Rlp.encodeUint t.chainId, Rlp.encodeBytes [], Rlp.encodeBytes []])

def signingHash (t : Transaction) : Word :=
  Keccak.digest t.signingPayload

def recoveryNumber (t : Transaction) (s : Signature) : Result Uint64 :=
  match Uint.ofNat? 64 (2 * t.chainId.val + 35 + s.recoveryId) with
  | some v => .ok v
  | none => .error (.recoveryOverflow t.chainId)

/-- The transaction with a signature; leading zeros of its numbers are dropped. -/
def withSignature (t : Transaction) (s : Signature) : Result SignedTransaction := do
  let v ← t.recoveryNumber s
  let raw := Rlp.encodeList
    (t.baseFields ++ [Rlp.encodeUint v, Rlp.encodeNumber s.r.bytes, Rlp.encodeNumber s.s.bytes])
  return ⟨raw, Keccak.digest raw, v, s.r, s.s⟩

/-- The transaction signed; its own chain counts, not that of the signer. -/
def sign (t : Transaction) (signer : Signer) : Result SignedTransaction := do
  t.withSignature (← signer.signWord t.signingHash)

def value? : Tree → Option Uint256
  | .text s => (s.bind fun s => Radix.value? s.toList).bind (Uint.ofNat? 256)
  | t => (t.uint? 64).bind fun n => Uint.ofNat? 256 n.val

def ofTree? (t : Tree) : Option Transaction :=
  match t.slots? ["nonce", "gasPrice", "gasLimit", "to", "value", "data", "chainId"] with
  | some [nonce, gasPrice, gasLimit, recipient, value, data, chainId] => do
    return ⟨← Slot.required? (Tree.uint? 64) nonce, ← Slot.required? (Tree.uint? 128) gasPrice,
      ← Slot.required? (Tree.uint? 64) gasLimit, ← Slot.required? (Tree.fixedBytes? 20) recipient,
      ← Slot.required? value? value, ← Slot.required? Tree.bytes? data,
      ← Slot.required? (Tree.uint? 64) chainId⟩
  | _ => none

def toTree (t : Transaction) : Tree :=
  .ofMembers [("nonce", .ofUint t.nonce), ("gasPrice", .ofUint t.gasPrice),
    ("gasLimit", .ofUint t.gasLimit), ("to", .ofBytes t.recipient.bytes),
    ("value", .ofText (Radix.hexText t.value.val)), ("data", .ofBytes t.data),
    ("chainId", .ofUint t.chainId)]

end Transaction

end VenueSigner
