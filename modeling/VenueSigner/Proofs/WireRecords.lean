import VenueSigner.Auth.Credentials
import VenueSigner.Chain.Transaction
import VenueSigner.Market.Book
import VenueSigner.Order.Request
import VenueSigner.Proofs.DecimalText
import VenueSigner.Proofs.NumeralText
import VenueSigner.Proofs.PostedOrder
/-!
Records survive being written as JSON. Whatever texts, numbers and byte strings are in them, and
whichever optional members are absent, a record is read from its text as it was, with the scale of
every decimal; a zero loses its minus sign, which its value does not have.
-/

namespace VenueSigner

open Json (Slot Tree)

namespace Radix

theorem digitTo?_of_spells {c : Char} {d : Fin 16} (h : Hex.Spells c d) :
    digitTo? 16 c = some d ∧ (c != '_') = true := by
  cases h with
  | inl lower =>
    subst lower
    revert d
    decide
  | inr upper =>
    subst upper
    revert d
    decide

theorem valueTo?_of_spelled {cs : List Char} {ds : List (Fin 16)}
    (h : List.Forall₂ Hex.Spells cs ds) : valueTo? 16 cs = some (Positional.value ds) := by
  have whole : cs.filter (· != '_') = cs ∧ cs.mapM (digitTo? 16) = some ds := by
    induction h with
    | nil => exact ⟨rfl, rfl⟩
    | cons spells _ ih =>
      obtain ⟨digit, kept⟩ := digitTo?_of_spells spells
      rw [List.filter_cons, if_pos kept, ih.1, List.mapM_cons, digit, ih.2]
      exact ⟨rfl, rfl⟩
  rw [valueTo?, whole.1, whole.2]
  rfl

theorem value?_hexText (n : ℕ) : value? (hexText n).toList = some n := by
  obtain ⟨ds, spelled, number⟩ := exists_digits n
  rw [hexText, String.toList_ofList]
  exact (valueTo?_of_spelled spelled).trans (congrArg some number)

end Radix

def PriceLevel.plain (l : PriceLevel) : PriceLevel :=
  ⟨l.price.plain, l.size.plain⟩

def OrderBook.plain (b : OrderBook) : OrderBook :=
  { b with bids := b.bids.map (·.plain), asks := b.asks.map (·.plain) }

def LimitRequest.plain (r : LimitRequest) : LimitRequest :=
  { r with price := r.price.plain, size := r.size.plain }

def MarketRequest.plain (r : MarketRequest) : MarketRequest :=
  { r with amount := r.amount.plain, price := r.price.map (·.plain) }

theorem TickSize.ofTree?_toTree (t : TickSize) : ofTree? t.toTree = some t := by
  cases t <;> rfl

theorem PriceLevel.ofTree?_toTree (l : PriceLevel) : ofTree? l.toTree = some l.plain := by
  have slots : l.toTree.slots? ["price", "size"] = some [some l.price.toTree, some l.size.toTree] :=
    Tree.slots?_self (show ["price", "size"].Nodup by decide)
  rw [ofTree?, slots]
  simp only [Slot.required?, Option.bind_some, Decimal.ofTree?_toTree]
  rfl

theorem LimitRequest.ofTree?_toTree (r : LimitRequest) : ofTree? r.toTree = some r.plain := by
  have slots : r.toTree.slots? ["token_id", "price", "size", "side", "fee_rate_bps", "nonce",
      "expiration", "taker"] = some [some (.ofText r.tokenId), some r.price.toTree,
        some r.size.toTree, some r.side.toTree, some (.ofUint r.feeRateBps),
        some (.ofUint r.nonce), some (.ofUint r.expiration), some (.ofBytes r.taker.bytes)] :=
    Tree.slots?_self (show ["token_id", "price", "size", "side", "fee_rate_bps", "nonce",
      "expiration", "taker"].Nodup by decide)
  rw [ofTree?, slots]
  simp only [Slot.required?, Slot.count?, Slot.address?, Slot.orElse?, Option.bind_some,
    Decimal.ofTree?_toTree, Side.ofTree?_toTree, Tree.uint?_ofUint, Tree.fixedBytes?_ofBytes]
  rfl

theorem MarketRequest.optional?_priceTree (price : Option Decimal) :
    Slot.optional? Decimal.ofTree? (some (priceTree price)) = some (price.map (·.plain)) := by
  cases price with
  | none => rfl
  | some d =>
    have notNull : d.toTree ≠ .null := nofun
    change Slot.nullable? Decimal.ofTree? d.toTree = _
    rw [Slot.nullable?_of_ne notNull, Decimal.ofTree?_toTree]
    rfl

theorem MarketRequest.ofTree?_toTree (r : MarketRequest) : ofTree? r.toTree = some r.plain := by
  have slots : r.toTree.slots? ["token_id", "amount", "side", "price", "order_type",
      "fee_rate_bps", "nonce", "taker"] = some [some (.ofText r.tokenId), some r.amount.toTree,
        some r.side.toTree, some (priceTree r.price), some r.timeInForce.toTree,
        some (.ofUint r.feeRateBps), some (.ofUint r.nonce), some (.ofBytes r.taker.bytes)] :=
    Tree.slots?_self (show ["token_id", "amount", "side", "price", "order_type", "fee_rate_bps",
      "nonce", "taker"].Nodup by decide)
  rw [ofTree?, slots]
  simp only [Slot.required?, Slot.count?, Slot.address?, Slot.orElse?, Option.bind_some,
    Decimal.ofTree?_toTree, Side.ofTree?_toTree, TimeInForce.ofTree?_toTree, Tree.uint?_ofUint,
    Tree.fixedBytes?_ofBytes, optional?_priceTree]
  rfl

theorem MarketOptions.ofTree?_toTree (o : MarketOptions) : ofTree? o.toTree = some o := by
  have slots : o.toTree.slots? ["tick_size", "neg_risk"] =
      some [some o.tickSize.toTree, some (.bool o.negRisk)] :=
    Tree.slots?_self (show ["tick_size", "neg_risk"].Nodup by decide)
  rw [ofTree?, slots]
  simp only [Slot.required?, Slot.orElse?, Option.bind_some, TickSize.ofTree?_toTree]
  rfl

theorem Credentials.ofTree?_toTree (c : Credentials) : ofTree? c.toTree = some c := by
  have slots : c.toTree.slots? ["apiKey", "secret", "passphrase"] =
      some [some (.ofText c.key), some (.ofText c.secret), some (.ofText c.passphrase)] :=
    Tree.slots?_self (show ["apiKey", "secret", "passphrase"].Nodup by decide)
  rw [ofTree?, slots]
  rfl

theorem Contracts.ofTree?_toTree (c : Contracts) : ofTree? c.toTree = some c := by
  have slots : c.toTree.slots? ["exchange", "collateral", "conditional_tokens"] =
      some [some (.ofBytes c.exchange.bytes), some (.ofBytes c.collateral.bytes),
        some (.ofBytes c.conditionalTokens.bytes)] :=
    Tree.slots?_self (show ["exchange", "collateral", "conditional_tokens"].Nodup by decide)
  rw [ofTree?, slots]
  simp only [Slot.required?, Option.bind_some, Tree.fixedBytes?_ofBytes]
  rfl

theorem Transaction.value?_hexText (n : Uint256) :
    value? (.ofText (Radix.hexText n.val)) = some n := by
  rw [Tree.ofText, value?, Option.bind_some, Radix.value?_hexText, Option.bind_some,
    Uint.ofNat?_val]

theorem Transaction.ofTree?_toTree (t : Transaction) : ofTree? t.toTree = some t := by
  have slots : t.toTree.slots? ["nonce", "gasPrice", "gasLimit", "to", "value", "data", "chainId"] =
      some [some (.ofUint t.nonce), some (.ofUint t.gasPrice), some (.ofUint t.gasLimit),
        some (.ofBytes t.recipient.bytes), some (.ofText (Radix.hexText t.value.val)),
        some (.ofBytes t.data), some (.ofUint t.chainId)] :=
    Tree.slots?_self (show ["nonce", "gasPrice", "gasLimit", "to", "value", "data",
      "chainId"].Nodup by decide)
  rw [ofTree?, slots]
  simp only [Slot.required?, Option.bind_some, Tree.uint?_ofUint, Tree.fixedBytes?_ofBytes,
    Tree.bytes?_ofBytes, value?_hexText]
  rfl

namespace TypedData.Domain

theorem lookup_memberTree {α : Type} (key name : String) (write : α → Tree) (o : Option α) :
    (memberTree name write o).lookup key = if key == name then o.map write else none := by
  cases o with
  | none => simp [memberTree]
  | some a =>
    rw [memberTree, List.lookup_cons]
    cases key == name <;> rfl

theorem map_fst_memberTree {α : Type} (name : String) (write : α → Tree) (o : Option α) :
    ((memberTree name write o).map (·.1)).Sublist [name] := by
  cases o with
  | none => exact List.nil_sublist _
  | some a => exact .refl _

theorem slots?_toTree (d : Domain) :
    d.toTree.slots? ["name", "version", "chainId", "verifyingContract", "salt"] =
      some [d.name.map .ofText, d.version.map .ofText, d.chainId.map .ofUint,
        d.verifyingContract.map fun a => .ofBytes a.bytes,
        d.salt.map fun w => .ofBytes w.bytes] := by
  rw [toTree, Tree.slots?_ofMembers]
  · simp [List.lookup_append, lookup_memberTree]
  · have all : ["name", "version", "chainId", "verifyingContract", "salt"].Nodup := by decide
    refine List.Nodup.sublist ?_ all
    simp only [List.map_append]
    exact ((((map_fst_memberTree ..).append (map_fst_memberTree ..)).append
      (map_fst_memberTree ..)).append (map_fst_memberTree ..)).append (map_fst_memberTree ..)

theorem ofTree?_toTree_self (d : Domain) : ofTree? d.toTree = some d := by
  have chain : Slot.optional? (Tree.uint? 64) (d.chainId.map .ofUint) = some d.chainId :=
    Slot.optional?_map Tree.uint?_ofUint (fun _ => nofun) d.chainId
  have contract : Slot.optional? (Tree.fixedBytes? 20)
      (d.verifyingContract.map fun a => .ofBytes a.bytes) = some d.verifyingContract :=
    Slot.optional?_map Tree.fixedBytes?_ofBytes (fun _ => nofun) d.verifyingContract
  have salt : Slot.optional? (Tree.fixedBytes? 32) (d.salt.map fun w => .ofBytes w.bytes) =
      some d.salt :=
    Slot.optional?_map Tree.fixedBytes?_ofBytes (fun _ => nofun) d.salt
  rw [ofTree?, slots?_toTree]
  simp only [Slot.optional?_text, chain, contract, salt]
  rfl

end TypedData.Domain

namespace OrderBook

theorem hashTree_eq (h : Option String) :
    hashTree h = TypedData.Domain.memberTree "hash" .ofText h := by
  cases h <;> rfl

theorem slots?_toTree (b : OrderBook) :
    b.toTree.slots? ["market", "asset_id", "timestamp", "bids", "asks", "hash"] =
      some [some (.ofText b.market), some (.ofText b.assetId), some (.ofText b.timestamp),
        some (levelsTree b.bids), some (levelsTree b.asks), b.hash.map .ofText] := by
  rw [toTree, hashTree_eq, Tree.slots?_ofMembers]
  · simp [TypedData.Domain.lookup_memberTree, List.lookup_cons]
  · have all : ["market", "asset_id", "timestamp", "bids", "asks", "hash"].Nodup := by decide
    refine List.Nodup.sublist ?_ all
    rw [List.map_append]
    exact (List.Sublist.refl _).append (TypedData.Domain.map_fst_memberTree ..)

theorem listOf?_levelsTree (ls : List PriceLevel) :
    Tree.listOf? PriceLevel.ofTree? (levelsTree ls) = some (ls.map (·.plain)) :=
  Tree.listOf?_map PriceLevel.ofTree?_toTree ls

theorem ofTree?_toTree (b : OrderBook) : ofTree? b.toTree = some b.plain := by
  rw [ofTree?, slots?_toTree]
  simp only [Slot.required?, Option.bind_some, listOf?_levelsTree, Slot.optional?_text]
  rfl

end OrderBook

/-- Every record is read from its own text, whatever is in it and whichever optional members it has.
Decimals keep their scale and their value; only zeros lose a minus sign. -/
theorem records_survive :
    (∀ p : Posting, (Tree.parse? p.toTree.render).bind Posting.ofTree? = some p) ∧
    (∀ t : Transaction, (Tree.parse? t.toTree.render).bind Transaction.ofTree? = some t) ∧
    (∀ r : LimitRequest, (Tree.parse? r.toTree.render).bind LimitRequest.ofTree? = some r.plain) ∧
    (∀ r : MarketRequest,
      (Tree.parse? r.toTree.render).bind MarketRequest.ofTree? = some r.plain) ∧
    (∀ o : MarketOptions, (Tree.parse? o.toTree.render).bind MarketOptions.ofTree? = some o) ∧
    (∀ c : Credentials, (Tree.parse? c.toTree.render).bind Credentials.ofTree? = some c) ∧
    (∀ b : OrderBook, (Tree.parse? b.toTree.render).bind OrderBook.ofTree? = some b.plain) ∧
    (∀ c : Contracts, (Tree.parse? c.toTree.render).bind Contracts.ofTree? = some c) ∧
    (∀ d : TypedData.Domain,
      (Tree.parse? d.toTree.render).bind TypedData.Domain.ofTree? = some d) ∧
    ∀ d : Decimal, d.plain.toRat = d.toRat ∧ d.plain.scale = d.scale ∧
      d.plain.mantissa = d.mantissa ∧ (d.plain = d ↔ d.Plain) := by
  simp only [Tree.parse?_render, Option.bind_some]
  exact ⟨Posting.ofTree?_toTree, Transaction.ofTree?_toTree, LimitRequest.ofTree?_toTree,
    MarketRequest.ofTree?_toTree, MarketOptions.ofTree?_toTree, Credentials.ofTree?_toTree,
    OrderBook.ofTree?_toTree, Contracts.ofTree?_toTree, TypedData.Domain.ofTree?_toTree_self,
    fun d => ⟨d.toRat_plain, rfl, rfl, d.plain_eq_self_iff⟩⟩

end VenueSigner
