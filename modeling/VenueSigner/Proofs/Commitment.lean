import VenueSigner.Chain.Contracts
import VenueSigner.Proofs.Payload
import VenueSigner.Proofs.StructEncoding
/-!
A signature commits to one purpose and one content. Whatever is signed, an order, an attestation or
a transaction, its digest belongs to nothing else, unless two different byte strings hashed on the
way have one digest.
-/

namespace VenueSigner

open TypedData (Domain)

theorem Bytes.ofText_injective {s t : String} (h : Bytes.ofText s = Bytes.ofText t) : s = t := by
  have encoded (u : String) : u.toByteArray = (Bytes.ofText u).toByteArray := by
    rw [Bytes.ofText, ← List.utf8Encode, ← String.toByteArray_ofList, String.ofList_toList]
  rw [← String.toByteArray_inj, encoded, encoded, h]

theorem FixedBytes.append_inj {size : Nat} {a b : FixedBytes size} {s t : Bytes}
    (h : a.bytes ++ s = b.bytes ++ t) : a = b ∧ s = t := by
  obtain ⟨same, rest⟩ := List.append_inj h (a.length_eq.trans b.length_eq.symm)
  exact ⟨FixedBytes.ext same, rest⟩

theorem FixedBytes.nil_ne_append (w : Word) (s : Bytes) : [] ≠ w.bytes ++ s := by
  intro h
  have length := congrArg List.length h
  rw [List.length_append, w.length_eq, List.length_nil] at length
  omega

theorem words_injective {v w : List Word}
    (h : v.flatMap (·.bytes) = w.flatMap (·.bytes)) : v = w := by
  induction v generalizing w with
  | nil =>
    cases w with
    | nil => rfl
    | cons b w => exact absurd h (FixedBytes.nil_ne_append b _)
  | cons a v ih =>
    cases w with
    | nil => exact absurd h.symm (FixedBytes.nil_ne_append a _)
    | cons b w =>
      rw [List.flatMap_cons, List.flatMap_cons] at h
      obtain ⟨same, rest⟩ := FixedBytes.append_inj h
      rw [same, ih rest]

theorem FixedBytes.ofNat_injective {m n : Nat} (hm : m < 2 ^ 256) (hn : n < 2 ^ 256)
    (h : FixedBytes.ofNat 32 m = FixedBytes.ofNat 32 n) : m = n := by
  rw [← FixedBytes.toNat_ofNat hm, h, FixedBytes.toNat_ofNat hn]

theorem Uint.toWord_injective {bits : Nat} {u v : Uint bits} (le : bits ≤ 256)
    (h : u.toWord = v.toWord) : u = v :=
  Uint.eq_of_val_eq (by rw [← u.toNat_toWord le, h, v.toNat_toWord le])

theorem Address.toWord_injective {a b : Address} (h : a.toWord = b.toWord) : a = b := by
  have same : a.toWord.bytes = b.toWord.bytes := by rw [h]
  rw [Address.bytes_toWord, Address.bytes_toWord] at same
  exact FixedBytes.ext (List.append_cancel_left same)

/-- Two different byte strings, one from each list, have the same digest. -/
def Keccak.Collides (xs ys : List Bytes) : Prop :=
  ∃ a ∈ xs, ∃ b ∈ ys, a ≠ b ∧ Keccak.digest a = Keccak.digest b

section Free

variable {xs ys : List Bytes}

theorem Keccak.eq_of_digest_eq {a b : Bytes} (free : ¬ Keccak.Collides xs ys) (ha : a ∈ xs)
    (hb : b ∈ ys) (h : Keccak.digest a = Keccak.digest b) : a = b := by
  by_contra different
  exact free ⟨a, ha, b, hb, different, h⟩

theorem Keccak.eq_of_digestText_eq {s t : String} (free : ¬ Keccak.Collides xs ys)
    (hs : Bytes.ofText s ∈ xs) (ht : Bytes.ofText t ∈ ys)
    (h : Keccak.digestText s = Keccak.digestText t) : s = t :=
  Bytes.ofText_injective (Keccak.eq_of_digest_eq free hs ht h)

end Free

namespace TypedData.Domain

/-- What is hashed to obtain the separator of a domain. -/
def hashed (d : Domain) : List Bytes :=
  d.encode :: Bytes.ofText d.typeText :: (d.name.toList ++ d.version.toList).map Bytes.ofText

def declared (there : Bool) (declaration : String) : List String :=
  if there then [declaration] else []

def shape (name version chainId contract salt : Bool) : String :=
  "EIP712Domain(" ++ ",".intercalate (
    declared name "string name" ++ declared version "string version" ++
      declared chainId "uint256 chainId" ++ declared contract "address verifyingContract" ++
      declared salt "bytes32 salt") ++ ")"

theorem map_entry {α : Type} (declaration : String) (word : α → Word) (o : Option α) :
    (entry declaration word o).map (·.1) = declared o.isSome declaration := by
  cases o with
  | none => rfl
  | some a => rfl

theorem typeText_eq (d : Domain) : d.typeText = shape d.name.isSome d.version.isSome
    d.chainId.isSome d.verifyingContract.isSome d.salt.isSome := by
  simp only [typeText, entries, List.map_append, map_entry, shape]

theorem shape_injective : ∀ a b c d e a' b' c' d' e' : Bool,
    shape a b c d e = shape a' b' c' d' e' → a = a' ∧ b = b' ∧ c = c' ∧ d = d' ∧ e = e' := by
  decide +kernel

theorem entry_append_inj {α : Type} {declaration : String} {word : α → Word} {o p : Option α}
    {s t : Bytes} (same : o.isSome = p.isSome)
    (h : (entry declaration word o).flatMap (·.2.bytes) ++ s =
      (entry declaration word p).flatMap (·.2.bytes) ++ t) :
    o.map word = p.map word ∧ s = t := by
  cases o with
  | none =>
    cases p with
    | none => exact ⟨rfl, h⟩
    | some b => contradiction
  | some a =>
    cases p with
    | none => contradiction
    | some b =>
      simp only [entry, List.flatMap_cons, List.flatMap_nil, List.append_nil] at h
      obtain ⟨word, rest⟩ := FixedBytes.append_inj h
      exact ⟨congrArg some word, rest⟩

theorem eq_of_digestText_map {xs ys : List Bytes} {o p : Option String}
    (free : ¬ Keccak.Collides xs ys) (ho : ∀ s ∈ o, Bytes.ofText s ∈ xs)
    (hp : ∀ s ∈ p, Bytes.ofText s ∈ ys)
    (h : o.map Keccak.digestText = p.map Keccak.digestText) : o = p := by
  cases o with
  | none =>
    cases p with
    | none => rfl
    | some t => contradiction
  | some s =>
    cases p with
    | none => contradiction
    | some t => rw [Keccak.eq_of_digestText_eq free (ho s rfl) (hp t rfl) (Option.some.inj h)]

theorem eq_of_separator_eq {xs ys : List Bytes} {d e : Domain} (free : ¬ Keccak.Collides xs ys)
    (hd : d.hashed ⊆ xs) (he : e.hashed ⊆ ys) (h : d.separator = e.separator) : d = e := by
  have texts (d : Domain) : ∀ s, s ∈ d.name ∨ s ∈ d.version → Bytes.ofText s ∈ d.hashed := by
    intro s hs
    refine List.mem_cons_of_mem _ (List.mem_cons_of_mem _ (List.mem_map_of_mem ?_))
    cases hs with
    | inl name => exact List.mem_append_left _ (Option.mem_toList.2 name)
    | inr version => exact List.mem_append_right _ (Option.mem_toList.2 version)
  have second (d : Domain) : Bytes.ofText d.typeText ∈ d.hashed :=
    List.mem_cons_of_mem _ List.mem_cons_self
  have encoded := Keccak.eq_of_digest_eq free (hd List.mem_cons_self) (he List.mem_cons_self) h
  obtain ⟨types, members⟩ := FixedBytes.append_inj encoded
  -- the type string tells which members there are, and so whose the words behind it are
  have spelled := Keccak.eq_of_digestText_eq free (hd (second d)) (he (second e)) types
  rw [typeText_eq, typeText_eq] at spelled
  obtain ⟨hasName, hasVersion, hasChain, hasContract, hasSalt⟩ :=
    shape_injective _ _ _ _ _ _ _ _ _ _ spelled
  simp only [entries, List.flatMap_append, List.append_assoc] at members
  obtain ⟨name, members⟩ := entry_append_inj hasName members
  obtain ⟨version, members⟩ := entry_append_inj hasVersion members
  obtain ⟨chainId, members⟩ := entry_append_inj hasChain members
  obtain ⟨contract, members⟩ := entry_append_inj hasContract members
  obtain ⟨salt, _⟩ := entry_append_inj (s := []) (t := []) hasSalt (by simpa using members)
  have sameName := eq_of_digestText_map free (fun s hs => hd (texts d s (.inl hs)))
    (fun s hs => he (texts e s (.inl hs))) name
  have sameVersion := eq_of_digestText_map free (fun s hs => hd (texts d s (.inr hs)))
    (fun s hs => he (texts e s (.inr hs))) version
  have sameChain := Option.map_injective (fun _ _ => Uint.toWord_injective (by decide)) chainId
  have sameContract := Option.map_injective (fun _ _ => Address.toWord_injective) contract
  rw [Option.map_id, id_eq, id_eq] at salt
  cases d
  cases e
  simp only [mk.injEq]
  exact ⟨sameName, sameVersion, sameChain, sameContract, salt⟩

end TypedData.Domain

theorem Side.number_lt (s : Side) : s.number < 2 ^ 256 := by
  cases s <;> decide

theorem Side.number_injective {s t : Side} (h : s.number = t.number) : s = t := by
  cases s <;> cases t <;> first | rfl | contradiction

theorem SignatureKind.number_lt (k : SignatureKind) : k.number < 2 ^ 256 := by
  cases k <;> decide

theorem SignatureKind.number_injective {j k : SignatureKind} (h : j.number = k.number) : j = k := by
  cases j <;> cases k <;> first | rfl | contradiction

theorem Order.encoding_injective {o p : Order} (h : o.encoding = p.encoding) : o = p := by
  rw [Order.encoding, Order.encoding] at h
  have same := (List.cons.inj (words_injective h)).2
  simp only [Order.words, List.cons.injEq, and_true] at same
  obtain ⟨salt, maker, signer, taker, tokenId, makerAmount, takerAmount, expiration, nonce, fee,
    side, kind⟩ := same
  have wide : 64 ≤ 256 := by decide
  have sameSide := FixedBytes.ofNat_injective o.side.number_lt p.side.number_lt side
  have sameKind :=
    FixedBytes.ofNat_injective o.signatureKind.number_lt p.signatureKind.number_lt kind
  cases o
  cases p
  simp only [Order.mk.injEq]
  exact ⟨Uint.toWord_injective wide salt, Address.toWord_injective maker,
    Address.toWord_injective signer, Address.toWord_injective taker,
    Uint.toWord_injective (Nat.le_refl 256) tokenId, Uint.toWord_injective wide makerAmount,
    Uint.toWord_injective wide takerAmount, Uint.toWord_injective wide expiration,
    Uint.toWord_injective wide nonce, Uint.toWord_injective wide fee,
    Side.number_injective sameSide, SignatureKind.number_injective sameKind⟩

theorem Attestation.eq_of_encoding_eq {xs ys : List Bytes} {a b : Address} {s t m n : Uint64}
    (free : ¬ Keccak.Collides xs ys) (hs : Bytes.ofText (Digits.text s.val) ∈ xs)
    (ht : Bytes.ofText (Digits.text t.val) ∈ ys)
    (h : Attestation.encoding a s m = Attestation.encoding b t n) : a = b ∧ s = t ∧ m = n := by
  rw [Attestation.encoding, Attestation.encoding] at h
  have same := (List.cons.inj (words_injective h)).2
  simp only [Attestation.words, List.cons.injEq, and_true] at same
  obtain ⟨address, timestamp, nonce⟩ := same
  have texts := Keccak.eq_of_digestText_eq free hs ht timestamp
  exact ⟨Address.toWord_injective address, Uint.eq_of_val_eq (Digits.text_injective texts),
    Uint.toWord_injective (by decide) nonce⟩

def TypedData.preimage (d : Domain) (struct : Bytes) : Bytes :=
  [0x19, 0x01] ++ (d.separator.bytes ++ (Keccak.digest struct).bytes)

theorem TypedData.signingDigest_eq (d : Domain) (struct : Bytes) :
    signingDigest d.separator (Keccak.digest struct) = Keccak.digest (preimage d struct) := by
  rw [signingDigest, preimage, List.append_assoc]

theorem TypedData.length_preimage_tail (d : Domain) (struct : Bytes) :
    (d.separator.bytes ++ (Keccak.digest struct).bytes).length = 64 := by
  rw [List.length_append, FixedBytes.length_eq, FixedBytes.length_eq]

theorem TypedData.parts_of_preimage_eq {d e : Domain} {s t : Bytes}
    (h : preimage d s = preimage e t) :
    d.separator = e.separator ∧ Keccak.digest s = Keccak.digest t := by
  rw [preimage, preimage] at h
  obtain ⟨separators, structs⟩ := FixedBytes.append_inj (List.append_cancel_left h)
  exact ⟨separators, FixedBytes.ext structs⟩

/-- Without a collision the bytes that are signed for a struct tell the domain and its encoding. -/
theorem TypedData.eq_of_preimage_eq_preimage {xs ys : List Bytes} {d e : Domain} {s t : Bytes}
    (free : ¬ Keccak.Collides xs ys) (hd : d.hashed ⊆ xs) (he : e.hashed ⊆ ys) (hs : s ∈ xs)
    (ht : t ∈ ys) (h : preimage d s = preimage e t) : d = e ∧ s = t := by
  obtain ⟨separators, structs⟩ := parts_of_preimage_eq h
  exact ⟨Domain.eq_of_separator_eq free hd he separators,
    Keccak.eq_of_digest_eq free hs ht structs⟩

theorem Attestation.encoding_ne_order (a : Address) (timestamp nonce : Uint64) (o : Order) :
    Attestation.encoding a timestamp nonce ≠ o.encoding := by
  intro h
  have length := congrArg List.length h
  rw [Attestation.length_encoding, o.length_encoding] at length
  omega

/-- Whatever is signed: an order under a domain, an attestation for a chain, or a transaction. -/
inductive Signed
  | order (o : Order) (d : Domain)
  | attestation (address : Address) (timestamp nonce chainId : Uint64)
  | transaction (t : Transaction)

namespace Signed

def digest : Signed → Result Word
  | order o d => o.signingHash d
  | attestation address timestamp nonce chainId =>
    TypedData.signingHash (.attestation chainId) Attestation.schema Attestation.struct
      (Attestation.message address timestamp nonce)
  | transaction t => .ok t.signingHash

def preimage : Signed → Bytes
  | order o d => TypedData.preimage d o.encoding
  | attestation address timestamp nonce chainId =>
    TypedData.preimage (.attestation chainId) (Attestation.encoding address timestamp nonce)
  | transaction t => t.signingPayload

/-- Byte strings that are hashed on the way to the digest. -/
def hashed : Signed → List Bytes
  | order o d => TypedData.preimage d o.encoding :: o.encoding :: d.hashed
  | attestation address timestamp nonce chainId =>
    TypedData.preimage (.attestation chainId) (Attestation.encoding address timestamp nonce) ::
      Attestation.encoding address timestamp nonce :: Bytes.ofText (Digits.text timestamp.val) ::
      (Domain.attestation chainId).hashed
  | transaction t => [t.signingPayload]

theorem digest_eq (x : Signed) : x.digest = .ok (Keccak.digest x.preimage) := by
  cases x with
  | order o d =>
    rw [digest, Order.signingHash, o.structHash_eq, preimage, ← TypedData.signingDigest_eq]
    rfl
  | attestation address timestamp nonce chainId =>
    rw [digest, TypedData.signingHash, Attestation.hashStruct_eq, preimage,
      ← TypedData.signingDigest_eq]
    rfl
  | transaction t => rfl

theorem preimage_mem_hashed (x : Signed) : x.preimage ∈ x.hashed := by
  cases x with
  | order o d => exact List.mem_cons_self
  | attestation address timestamp nonce chainId => exact List.mem_cons_self
  | transaction t => exact List.mem_cons_self

theorem order_hashed (o : Order) (d : Domain) :
    d.hashed ⊆ (order o d).hashed ∧ o.encoding ∈ (order o d).hashed := by
  refine ⟨fun _ m => ?_, List.mem_cons_of_mem _ List.mem_cons_self⟩
  exact List.mem_cons_of_mem _ (List.mem_cons_of_mem _ m)

theorem attestation_hashed (a : Address) (t n c : Uint64) :
    (Domain.attestation c).hashed ⊆ (attestation a t n c).hashed ∧
      Attestation.encoding a t n ∈ (attestation a t n c).hashed ∧
      Bytes.ofText (Digits.text t.val) ∈ (attestation a t n c).hashed := by
  refine ⟨fun _ m => ?_, List.mem_cons_of_mem _ List.mem_cons_self, ?_⟩
  · exact List.mem_cons_of_mem _ (List.mem_cons_of_mem _ (List.mem_cons_of_mem _ m))
  · exact List.mem_cons_of_mem _ (List.mem_cons_of_mem _ List.mem_cons_self)

theorem transaction_preimage_ne (t : Transaction) (d : Domain) (struct : Bytes) :
    t.signingPayload ≠ TypedData.preimage d struct :=
  t.signingPayload_ne_typedData (TypedData.length_preimage_tail d struct)

/-- Without a collision on the way, the bytes behind a digest name what is signed. -/
theorem eq_of_preimage_eq {x y : Signed} (free : ¬ Keccak.Collides x.hashed y.hashed)
    (h : x.preimage = y.preimage) : x = y := by
  cases x with
  | order o d =>
    obtain ⟨domain, encoding⟩ := order_hashed o d
    cases y with
    | order p e =>
      obtain ⟨domain', encoding'⟩ := order_hashed p e
      obtain ⟨sameDomain, same⟩ :=
        TypedData.eq_of_preimage_eq_preimage free domain domain' encoding encoding' h
      rw [Order.encoding_injective same, sameDomain]
    | attestation a t n c =>
      obtain ⟨domain', encoding', _⟩ := attestation_hashed a t n c
      have same := TypedData.eq_of_preimage_eq_preimage free domain domain' encoding encoding' h
      exact absurd same.2.symm (Attestation.encoding_ne_order a t n o)
    | transaction t => exact absurd h.symm (transaction_preimage_ne t _ _)
  | attestation a t n c =>
    obtain ⟨domain, encoding, text⟩ := attestation_hashed a t n c
    cases y with
    | order o d =>
      obtain ⟨domain', encoding'⟩ := order_hashed o d
      have same := TypedData.eq_of_preimage_eq_preimage free domain domain' encoding encoding' h
      exact absurd same.2 (Attestation.encoding_ne_order a t n o)
    | attestation b u m e =>
      obtain ⟨domain', encoding', text'⟩ := attestation_hashed b u m e
      obtain ⟨sameDomain, same⟩ :=
        TypedData.eq_of_preimage_eq_preimage free domain domain' encoding encoding' h
      obtain ⟨address, timestamp, nonce⟩ := Attestation.eq_of_encoding_eq free text text' same
      have chain : c = e := Option.some.inj (congrArg Domain.chainId sameDomain)
      rw [address, timestamp, nonce, chain]
    | transaction t => exact absurd h.symm (transaction_preimage_ne t _ _)
  | transaction t =>
    cases y with
    | order o d => exact absurd h (transaction_preimage_ne t _ _)
    | attestation a u n c => exact absurd h (transaction_preimage_ne t _ _)
    | transaction u => rw [Transaction.signingPayload_injective h]

theorem eq_or_collides {x y : Signed} (h : x.digest = y.digest) :
    x = y ∨ Keccak.Collides x.hashed y.hashed := by
  rw [digest_eq, digest_eq, Except.ok.injEq] at h
  by_cases free : Keccak.Collides x.hashed y.hashed
  · exact .inr free
  · have behind := Keccak.eq_of_digest_eq free x.preimage_mem_hashed y.preimage_mem_hashed h
    exact .inl (eq_of_preimage_eq free behind)

end Signed

theorem Contracts.eq_of_exchange_eq {chain : Uint64} {r s : Bool} {c d : Contracts}
    (hc : Contracts.ofChain chain r = .ok c) (hd : Contracts.ofChain chain s = .ok d)
    (h : c.exchange = d.exchange) : r = s := by
  unfold Contracts.ofChain at hc hd
  by_cases main : chain = polygon
  · rw [if_pos main, Except.ok.injEq] at hc hd
    subst hc hd
    revert h
    cases r <;> cases s <;> decide
  · rw [if_neg main] at hc hd
    by_cases test : chain = amoy
    · rw [if_pos test, Except.ok.injEq] at hc hd
      subst hc hd
      revert h
      cases r <;> cases s <;> decide
    · rw [if_neg test] at hc
      contradiction

/-- Everything that can be signed has a digest. If the digests of two things are the same, the
things are the same in every component, or two different byte strings hashed on the way have one
digest. In particular an order signed for one chain and one kind of market is signed for no other.
-/
theorem Signed.digest_commits :
    (∀ x : Signed, ∃ w, x.digest = .ok w) ∧
      (∀ x y : Signed, x.digest = y.digest → x = y ∨ Keccak.Collides x.hashed y.hashed) ∧
      ∀ (o p : Order) (chain chain' : Uint64) (negRisk negRisk' : Bool) (c c' : Contracts),
        Contracts.ofChain chain negRisk = .ok c → Contracts.ofChain chain' negRisk' = .ok c' →
        let x := order o (.exchange chain c.exchange)
        let y := order p (.exchange chain' c'.exchange)
        x.digest = y.digest →
          (o = p ∧ chain = chain' ∧ negRisk = negRisk') ∨ Keccak.Collides x.hashed y.hashed := by
  refine ⟨fun x => ⟨_, x.digest_eq⟩, fun x y => eq_or_collides, ?_⟩
  intro o p chain chain' negRisk negRisk' c c' hc hc' x y same
  cases eq_or_collides same with
  | inl equal =>
    have parts := Signed.order.inj equal
    have sameChain : chain = chain' := Option.some.inj (congrArg Domain.chainId parts.2)
    have sameExchange : c.exchange = c'.exchange :=
      Option.some.inj (congrArg Domain.verifyingContract parts.2)
    subst sameChain
    exact .inl ⟨parts.1, rfl, Contracts.eq_of_exchange_eq hc hc' sameExchange⟩
  | inr collision => exact .inr collision

end VenueSigner
