import VenueSigner.Proofs.JsonRecord
import VenueSigner.Proofs.JsonText
import VenueSigner.Proofs.MarketOrder
/-!
What is posted is what was signed. The record that a signed order is posted in, read back from its
text, tells the order; its signature is one for the exchange of the builder's chain and the kind of
market. Whoever can recover a public key from a signature finds the address of the signer.
-/

namespace VenueSigner

open Json (Slot Tree)

def Uint.ofNumeral? (bits : Nat) (s : String) : Option (Uint bits) :=
  (Digits.signedNatural? s.toList).bind (Uint.ofNat? bits)

/-- The order that a record tells. -/
def PostedOrder.order? (p : PostedOrder) : Option Order := do
  return {
    salt := p.salt
    maker := ← (Address.parse p.maker).toOption
    signer := ← (Address.parse p.signer).toOption
    taker := ← (Address.parse p.taker).toOption
    tokenId := ← (Uint256.parse p.tokenId).toOption
    makerAmount := ← Uint.ofNumeral? 64 p.makerAmount
    takerAmount := ← Uint.ofNumeral? 64 p.takerAmount
    expiration := ← Uint.ofNumeral? 64 p.expiration
    nonce := ← Uint.ofNumeral? 64 p.nonce
    feeRateBps := ← Uint.ofNumeral? 64 p.feeRateBps
    side := p.side
    signatureKind := ← SignatureKind.ofNumber? p.signatureType.val }

def Signature.ofBytes? (b : Bytes) : Option Signature := do
  let r ← FixedBytes.ofBytes? 32 (b.take 32)
  let s ← FixedBytes.ofBytes? 32 ((b.drop 32).take 32)
  match b.drop 64 with
  | [27] => some ⟨r, s, false⟩
  | [28] => some ⟨r, s, true⟩
  | _ => none

def Signature.ofText? (s : String) : Option Signature :=
  (Hex.decode s).toOption.bind ofBytes?

def Address.ofPublicKey (key : Bytes) : Address :=
  ⟨(Keccak.digest key).bytes.drop 12, by simp [(Keccak.digest key).length_eq]⟩

def Posting.parse? (s : String) : Option Posting :=
  (Tree.parse? s).bind ofTree?

/-- The address whose key signed a posted order for an exchange: all that is needed is the text of
the posting, the chain, and the kind of market. -/
def Posting.signer? (recover : Word → Signature → Option Bytes) (chainId : Uint64) (negRisk : Bool)
    (text : String) : Option Address := do
  let posting ← parse? text
  let order ← posting.order.order?
  let contracts ← (Contracts.ofChain chainId negRisk).toOption
  let digest ← (order.signingHash (.exchange chainId contracts.exchange)).toOption
  let signature ← Signature.ofText? posting.order.signature
  return .ofPublicKey (← recover digest signature)

theorem Uint.ofNumeral?_text {bits : Nat} (n : Uint bits) :
    ofNumeral? bits (Digits.text n.val) = some n := by
  rw [ofNumeral?, Digits.text, String.toList_ofList, Digits.signedNatural?_toChars,
    Option.bind_some, ofNat?_val]

theorem Signature.ofBytes?_bytes (x : Signature) : ofBytes? x.bytes = some x := by
  have r := x.r.length_eq
  have s := x.s.length_eq
  have first : x.bytes.take 32 = x.r.bytes := by simp [bytes, List.append_assoc, r]
  have second : (x.bytes.drop 32).take 32 = x.s.bytes := by simp [bytes, List.append_assoc, r, s]
  have last : x.bytes.drop 64 = [UInt8.ofNat (27 + x.recoveryId)] := by
    simp [bytes, List.append_assoc, List.drop_append, r, s]
  rw [ofBytes?, first, second, last, FixedBytes.ofBytes?_bytes, FixedBytes.ofBytes?_bytes]
  obtain ⟨_, _, odd⟩ := x
  cases odd <;> rfl

theorem Signature.ofText?_text (x : Signature) : ofText? x.text = some x := by
  rw [ofText?, text, Hex.decode_encodePrefixed]
  exact x.ofBytes?_bytes

theorem Side.ofTree?_toTree (s : Side) : ofTree? s.toTree = some s := by
  cases s <;> rfl

theorem TimeInForce.ofTree?_toTree (t : TimeInForce) : ofTree? t.toTree = some t := by
  cases t <;> rfl

theorem SignatureKind.ofNumber?_byte (k : SignatureKind) : ofNumber? k.byte.val = some k :=
  ofNumber?_eq_some_iff.2 rfl

theorem PostedOrder.ofTree?_toTree (p : PostedOrder) : ofTree? p.toTree = some p := by
  have slots : p.toTree.slots? names = some [some (.ofUint p.salt), some (.ofText p.maker),
      some (.ofText p.signer), some (.ofText p.taker), some (.ofText p.tokenId),
      some (.ofText p.makerAmount), some (.ofText p.takerAmount), some (.ofText p.expiration),
      some (.ofText p.nonce), some (.ofText p.feeRateBps), some p.side.toTree,
      some (.ofUint p.signatureType), some (.ofText p.signature)] :=
    Tree.slots?_self (show names.Nodup by decide)
  rw [ofTree?, slots]
  simp only [Slot.required?, Option.bind_some, Tree.uint?_ofUint, Side.ofTree?_toTree]
  rfl

theorem Posting.ofTree?_toTree (p : Posting) : ofTree? p.toTree = some p := by
  have slots : p.toTree.slots? ["order", "owner", "orderType"] =
      some [some p.order.toTree, some (.ofText p.owner), some p.timeInForce.toTree] :=
    Tree.slots?_self (show ["order", "owner", "orderType"].Nodup by decide)
  rw [ofTree?, slots]
  simp only [Slot.required?, Option.bind_some, PostedOrder.ofTree?_toTree,
    TimeInForce.ofTree?_toTree]
  rfl

theorem Posting.parse?_render (p : Posting) : parse? p.toTree.render = some p := by
  rw [parse?, Tree.parse?_render, Option.bind_some, ofTree?_toTree]

theorem SignedOrder.order?_posting (s : SignedOrder) (owner : String) (tif : TimeInForce) :
    (s.posting owner tif).order.order? = some s.order := by
  simp only [PostedOrder.order?, posting, Address.parse_checksum, Uint256.text,
    Uint256.parse_text (Uint.val_lt _), Uint.ofNumeral?_text, SignatureKind.ofNumber?_byte]
  rfl

theorem Hex.length_encodeChars (b : Bytes) : (encodeChars b).length = 2 * b.length := by
  induction b with
  | nil => rfl
  | cons x rest ih =>
    rw [encodeChars, List.flatMap_cons, List.length_append, ← encodeChars, ih, byteChars]
    simp only [List.length_cons, List.length_nil]
    omega

theorem Hex.digit_of_mem_encodeChars {c : Char} {b : Bytes} (h : c ∈ encodeChars b) :
    ∃ n : Fin 16, c = digitChar n := by
  obtain ⟨x, _, h⟩ := List.mem_flatMap.1 h
  obtain rfl | h := List.mem_cons.1 h
  · exact ⟨_, rfl⟩
  · exact ⟨_, List.mem_singleton.1 h⟩

theorem Signature.length_bytes (x : Signature) : x.bytes.length = 65 := by
  simp [bytes, x.r.length_eq, x.s.length_eq]

/-- A posting shows that an order is signed with a key, for the exchange of a chain and a kind of
market: its text is read back and tells the order, the digest of that order for the exchange is what
was signed, and the signature is spelled out in it. Then the text leads to the address of the
key. -/
structure Posting.Shows (p : Posting) (s : SignedOrder) (k : SecretKey) (chainId : Uint64)
    (negRisk : Bool) (recover : Word → Signature → Option Bytes) : Prop where
  read : parse? p.toTree.render = some p
  told : p.order.order? = some s.order
  signed : ∃ c digest, Contracts.ofChain chainId negRisk = .ok c ∧
    s.order.signingHash (.exchange chainId c.exchange) = .ok digest ∧
    k.sign? digest = some s.signature
  spelled : ∃ digits, p.order.signature = String.ofList ('0' :: 'x' :: digits) ∧
    digits.length = 130 ∧ ∀ c ∈ digits, ∃ n : Fin 16, c = Hex.digitChar n
  decoded : Hex.decode p.order.signature = .ok
    (s.signature.r.bytes ++ s.signature.s.bytes ++ [UInt8.ofNat (27 + s.signature.recoveryId)])
  signer : signer? recover chainId negRisk p.toTree.render = some k.address

theorem Posting.signer?_eq_some {recover : Word → Signature → Option Bytes} {chainId : Uint64}
    {negRisk : Bool} {text : String} {p : Posting} {order : Order} {c : Contracts} {digest : Word}
    {signature : Signature} {key : Bytes} (read : parse? text = some p)
    (told : p.order.order? = some order) (chain : Contracts.ofChain chainId negRisk = .ok c)
    (hashed : order.signingHash (.exchange chainId c.exchange) = .ok digest)
    (spelled : Signature.ofText? p.order.signature = some signature)
    (recovered : recover digest signature = some key) :
    signer? recover chainId negRisk text = some (.ofPublicKey key) := by
  simp only [signer?, read, told, chain, hashed, spelled, recovered, Except.toOption,
    Option.bind_eq_bind, Option.bind_some]
  rfl

namespace OrderBuilder

variable {b : OrderBuilder} {order : Order} {o : MarketOptions} {tif : TimeInForce}
  {s : SignedOrder}

theorem sign_of_createLimit {r : LimitRequest} {salt : Uint64}
    (h : b.createLimit r o salt = .ok s) : b.sign s.order o .goodTillCancelled = .ok s := by
  obtain ⟨order, _, signed⟩ := Result.bind_eq_ok.1 h
  rwa [order_of_sign signed]

theorem sign_of_createMarketFromBook {r : MarketRequest} {levels : List PriceLevel} {salt : Uint64}
    (h : b.createMarketFromBook r o levels salt = .ok s) :
    b.sign s.order o r.timeInForce = .ok s := by
  obtain ⟨_, _, h⟩ := Result.bind_eq_ok.1 h
  obtain ⟨order, _, signed⟩ := Result.bind_eq_ok.1 h
  rwa [order_of_sign signed]

variable {k : SecretKey} {chainId : Uint64} {kind : SignatureKind} {funder : Option Address}
  {recover : Word → Signature → Option Bytes}

/-- The posting of an order that a builder signed shows that. -/
theorem shows_of_sign
    (recovers : ∀ digest signature, k.sign? digest = some signature →
      recover digest signature = some k.publicBytes)
    (h : (ofSigner (.ofKey k chainId) kind funder).sign order o tif = .ok s) (owner : String)
    (posted : TimeInForce) :
    (s.posting owner posted).Shows s k chainId o.negRisk recover := by
  obtain ⟨c, digest, signature, chain, hashed, signed, rfl⟩ := sign_eq_ok_iff.1 h
  have read := Posting.parse?_render (SignedOrder.posting ⟨order, signature, tif, ""⟩ owner posted)
  have told := SignedOrder.order?_posting ⟨order, signature, tif, ""⟩ owner posted
  refine ⟨read, told, ⟨c, digest, chain, hashed, signed⟩, ?_, Hex.decode_encodePrefixed _, ?_⟩
  · refine ⟨Hex.encodeChars signature.bytes, rfl, ?_, fun _ => Hex.digit_of_mem_encodeChars⟩
    rw [Hex.length_encodeChars, signature.length_bytes]
  · have key := recovers digest signature signed
    exact Posting.signer?_eq_some read told chain hashed signature.ofText?_text key

/-- Whatever a builder signs or creates is shown by every posting of it, whoever owns that and
however long it is to stand. Orders that the builder created itself name the address of its key as
signer, which is the address that the posting leads to, and the funder as maker. -/
theorem posting_shows (k : SecretKey) (chainId : Uint64) (kind : SignatureKind)
    (funder : Option Address) (o : MarketOptions) (recover : Word → Signature → Option Bytes)
    (recovers : ∀ digest signature, k.sign? digest = some signature →
      recover digest signature = some k.publicBytes) :
    let b := ofSigner (.ofKey k chainId) kind funder
    let shown (s : SignedOrder) := ∀ owner tif,
      (s.posting owner tif).Shows s k chainId o.negRisk recover
    let own (s : SignedOrder) := s.order.signer = k.address ∧ s.order.maker = funder.getD k.address
    (∀ order tif s, b.sign order o tif = .ok s → s.order = order ∧ shown s) ∧
      (∀ r salt s, b.createLimit r o salt = .ok s → shown s ∧ own s) ∧
      (∀ r salt s, b.createMarket r o salt = .ok s → shown s ∧ own s) ∧
      ∀ r levels salt s, b.createMarketFromBook r o levels salt = .ok s → shown s ∧ own s := by
  intro b shown own
  have fromBook (r levels salt s) (h : b.createMarketFromBook r o levels salt = .ok s) :
      shown s ∧ own s := by
    obtain ⟨price, _, built⟩ := order_of_createMarketFromBook h
    obtain ⟨_, _, _, _, _, order⟩ := marketOrderAt_eq_ok_iff.1 built
    exact ⟨shows_of_sign recovers (sign_of_createMarketFromBook h),
      congrArg Order.signer order, congrArg Order.maker order⟩
  refine ⟨?_, ?_, ?_, fromBook⟩
  · intro order tif s h
    exact ⟨order_of_sign h, shows_of_sign recovers h⟩
  · intro r salt s h
    obtain ⟨_, _, _, _, _, order⟩ := limitOrder_eq_ok_iff.1 (order_of_createLimit h)
    exact ⟨shows_of_sign recovers (sign_of_createLimit h),
      congrArg Order.signer order, congrArg Order.maker order⟩
  · intro r salt s h
    cases given : r.price with
    | none =>
      rw [createMarket, given] at h
      contradiction
    | some price =>
      rw [createMarket_eq_createMarketFromBook given []] at h
      exact fromBook r [] salt s h

/-- Recovers the public key of a key from what that key signed, and nothing else. -/
def recoverFrom (k : SecretKey) (digest : Word) (signature : Signature) : Option Bytes :=
  if k.sign? digest = some signature then some k.publicBytes else none

def millionTokens : LimitRequest where
  tokenId := "1"
  price := TickSize.tenth.decimal
  size := Decimal.million
  side := .buy
  feeRateBps := Uint.zero 64
  nonce := Uint.zero 64
  expiration := Uint.zero 64
  taker := Address.zero

def millionDigest : Word :=
  FixedBytes.ofNat 32 0x658fb6358e0e7e543d98d5dc03d3463ff6eed497648c5e7afd97e1f664e169e9

theorem signingHash_millionTokens :
    (Order.leastBid ⟨100000000000, by decide⟩ ⟨1000000000000, by decide⟩).signingHash
      (.exchange Contracts.polygon (Contracts.onPolygon false).exchange) = .ok millionDigest := by
  rw [Order.signingHash_polygon, Order.leastBid, SecretKey.address_least]
  refine congrArg Except.ok (FixedBytes.ext ?_)
  decide +kernel

theorem isSome_sign?_millionDigest : (SecretKey.least.sign? millionDigest).isSome := by
  decide +kernel

theorem posting_shows_millionTokens :
    (∀ digest signature, SecretKey.least.sign? digest = some signature →
      recoverFrom .least digest signature = some SecretKey.least.publicBytes) ∧
    ∃ digest signature s, SecretKey.least.sign? digest = some signature ∧
      (ofSigner (.ofKey .least Contracts.polygon) .externallyOwned none).createLimit
        millionTokens ⟨.tenth, false⟩ (Uint.zero 64) = .ok s ∧
      s.signature = signature ∧ s.order.makerAmount.val = 100000000000 ∧
      s.order.signer = SecretKey.least.address ∧ s.order.maker = SecretKey.least.address ∧
      (s.posting "api-key" .goodTillCancelled).Shows s .least Contracts.polygon false
        (recoverFrom .least) := by
  have recovers (digest signature) (h : SecretKey.least.sign? digest = some signature) :
      recoverFrom .least digest signature = some SecretKey.least.publicBytes := if_pos h
  let b := ofSigner (.ofKey .least Contracts.polygon) .externallyOwned none
  have checked : (⟨.tenth, false⟩ : MarketOptions).checkPrice millionTokens.price = .ok () :=
    Result.eq_ok_of_toOption (by decide +kernel)
  have amounts : OrderAmounts.limit .buy millionTokens.size millionTokens.price
      TickSize.tenth.precision =
        .ok ⟨.buy, ⟨100000000000, by decide⟩, ⟨1000000000000, by decide⟩⟩ :=
    Result.eq_ok_of_toOption (by decide +kernel)
  have token : Uint256.parse millionTokens.tokenId = .ok ⟨1, by decide⟩ := rfl
  have built : b.limitOrder millionTokens ⟨.tenth, false⟩ (Uint.zero 64) = .ok _ :=
    limitOrder_eq_ok_iff.2 ⟨checked, _, _, amounts, token, rfl⟩
  have chain : Contracts.ofChain Contracts.polygon false = .ok (.onPolygon false) := rfl
  obtain ⟨signature, signed⟩ := Option.isSome_iff_exists.1 isSome_sign?_millionDigest
  have made : b.createLimit millionTokens ⟨.tenth, false⟩ (Uint.zero 64) = .ok _ :=
    Result.bind_eq_ok.2 ⟨_, built,
      sign_eq_ok_iff.2 ⟨_, _, signature, chain, signingHash_millionTokens, signed, rfl⟩⟩
  obtain ⟨shown, own⟩ := (posting_shows .least Contracts.polygon .externallyOwned none
    ⟨.tenth, false⟩ (recoverFrom .least) recovers).2.1 _ _ _ made
  exact ⟨recovers, _, signature, _, signed, made, rfl, rfl, own.1, own.2,
    shown "api-key" .goodTillCancelled⟩

end OrderBuilder

end VenueSigner
