import VenueSigner.Auth.Headers
import VenueSigner.Chain.Contracts
import VenueSigner.Order.Order
import VenueSigner.Proofs.KeccakRows
import VenueSigner.Proofs.ReadBack
/-!
The encodings of the two structs that are signed. The values of an order and of an attestation go
into a message as texts and numbers; what comes out of the encoder is one word for the type string
and one for each member, as if each value had been put into its word directly.
-/

namespace VenueSigner

open Json (Value)

theorem Json.lookup_insertMember {α : Type} (name key : String) (a : α) (ms : List (String × α)) :
    (Json.insertMember name a ms).lookup key = if key == name then some a else ms.lookup key := by
  induction ms with
  | nil =>
    rw [Json.insertMember, List.lookup_cons]
    cases key == name <;> rfl
  | cons m rest ih =>
    obtain ⟨n, b⟩ := m
    unfold Json.insertMember
    split
    · rw [List.lookup_cons]
      cases key == name <;> rfl
    · split
      · next same =>
        rw [List.lookup_cons, List.lookup_cons, same]
        cases key == n <;> rfl
      · next different =>
        rw [List.lookup_cons, List.lookup_cons, ih]
        by_cases here : key = n
        · subst here
          have other : (key == name) = false := beq_eq_false_iff_ne.2 (Ne.symm different)
          simp [other]
        · have other : (key == n) = false := by simpa using here
          simp [other]

theorem Json.lookup_sortMembers {α : Type} (key : String) (ms : List (String × α)) :
    (Json.sortMembers ms).lookup key = ms.reverse.lookup key := by
  have general (sorted : List (String × α)) :
      (ms.foldl (fun sorted m => Json.insertMember m.1 m.2 sorted) sorted).lookup key =
        (ms.reverse ++ sorted).lookup key := by
    induction ms generalizing sorted with
    | nil => rfl
    | cons m rest ih =>
      rw [List.foldl_cons, ih, List.reverse_cons, List.append_assoc, List.lookup_append,
        List.lookup_append, Json.lookup_insertMember]
      congr 1
      rw [List.singleton_append, List.lookup_cons]
      cases key == m.1 <;> rfl
  rw [Json.sortMembers, general, List.append_nil]

namespace TypedData

theorem Schema.reach_of_unknown {s : Schema} {todo : List String} (found : List String)
    (h : ∀ name ∈ todo, s.members? name = none) : s.reach todo found = found := by
  induction todo with
  | nil => rw [Schema.reach]
  | cons name rest ih =>
    have unknown := h name List.mem_cons_self
    have skip := ih fun n hn => h n (List.mem_cons_of_mem name hn)
    rw [Schema.reach]
    split
    · exact skip
    · split
      · exact skip
      · next ms known => rw [known] at unknown; contradiction

theorem Schema.members?_single (struct name : String) (ms : List Member) :
    (Schema.ofList [(struct, ms)]).members? name = if name == struct then some ms else none := by
  change List.lookup name [(struct, ms)] = _
  rw [List.lookup_cons]
  cases name == struct <;> rfl

theorem Schema.typeText?_single (struct : String) (ms : List Member)
    (atoms : ∀ m ∈ ms, m.base ≠ struct) :
    (Schema.ofList [(struct, ms)]).typeText? struct = some (Schema.definitionText struct ms) := by
  have known : (Schema.ofList [(struct, ms)]).members? struct = some ms := by
    simp [Schema.members?_single]
  have unknown : ∀ name ∈ ms.map Member.base ++ [],
      (Schema.ofList [(struct, ms)]).members? name = none := by
    intro name h
    obtain ⟨m, hm, rfl⟩ := List.mem_map.1 (by simpa using h)
    simp [Schema.members?_single, atoms m hm]
  have reached : (Schema.ofList [(struct, ms)]).reach [struct] [] = [struct] := by
    rw [Schema.reach, dif_neg (by simp)]
    split
    · next none => rw [known] at none; contradiction
    · next ms' known' =>
      rw [known, Option.some.injEq] at known'
      rw [← known', Schema.reach_of_unknown [struct] unknown]
  have needs : (Schema.ofList [(struct, ms)]).needs struct = [] := by
    rw [Schema.needs, reached]
    change List.filter _ [(struct, ms)] = []
    simp
  rw [Schema.typeText?, known, needs]
  simp [String.join]

/-- The value stands in the record under the member's name, and the word stands for it. -/
def Schema.Gives (s : Schema) (object : List (String × Value)) (m : Member) (w : Word) : Prop :=
  ∃ v, object.lookup m.name = some v ∧ s.encodeValue m.kind v = .ok w

theorem Schema.encodeMembers_eq {s : Schema} {object : List (String × Value)} {ms : List Member}
    {words : List Word} (struct : String) (h : List.Forall₂ (s.Gives object) ms words) :
    s.encodeMembers struct object ms = .ok (words.flatMap (·.bytes)) := by
  induction h with
  | nil => rw [Schema.encodeMembers]; rfl
  | @cons m w ms words head _ ih =>
    obtain ⟨v, found, encoded⟩ := head
    rw [Schema.encodeMembers]
    split
    · next none => rw [none] at found; contradiction
    · next v' found' =>
      rw [found, Option.some.injEq] at found'
      rw [← found', encoded, ih]
      rfl

def Kind.Names (name : String) (k : Kind) : Prop :=
  name.toList.getLast? ≠ some ']' ∧ Kind.ofName? name = some k

theorem Kind.names_uint256 : Names "uint256" (.uint 256) := ⟨by decide, rfl⟩

theorem Kind.names_uint8 : Names "uint8" (.uint 8) := ⟨by decide, rfl⟩

theorem Kind.names_address : Names "address" .address := ⟨by decide, rfl⟩

theorem Kind.names_string : Names "string" .text := ⟨by decide, rfl⟩

theorem Schema.encodeValue_atom {s : Schema} {kind : String} {k : Kind} (v : Value)
    (named : Kind.Names kind k) (notStruct : s.has kind = false) :
    s.encodeValue kind v = k.encode kind v := by
  rw [Schema.encodeValue, if_neg named.1, notStruct, named.2]
  rfl

/-- A message under a schema of one struct becomes the digest of its definition and the words of its
members. -/
theorem Schema.encodeStruct_single {struct : String} {ms : List Member} {words : List Word}
    {values : List (String × Value)} (atoms : ∀ m ∈ ms, m.base ≠ struct)
    (h : List.Forall₂ ((Schema.ofList [(struct, ms)]).Gives (Json.sortMembers values)) ms words) :
    (Schema.ofList [(struct, ms)]).encodeStruct struct (.ofMembers values) =
      .ok ((Keccak.digestText (Schema.definitionText struct ms) :: words).flatMap (·.bytes)) := by
  rw [Schema.encodeStruct, Schema.members?_single, beq_self_eq_true, if_pos rfl]
  simp only [Value.ofMembers, Schema.typeHash, Schema.typeText?_single struct ms atoms,
    Schema.encodeMembers_eq struct h]
  rfl

theorem Kind.encode_numeral (name : String) {bits n : Nat} (h : n < 2 ^ bits)
    (le : bits ≤ 256) :
    Kind.encode name (.text (Digits.text n)) (.uint bits) = .ok (FixedBytes.ofNat 32 n) := by
  have fits : n < 2 ^ 256 := Nat.lt_of_lt_of_le h (Nat.pow_le_pow_right (by decide) le)
  simp only [Kind.encode, Kind.encodeUint, Kind.natural, Uint256.parse_text fits]
  exact if_pos h

theorem Kind.encode_int (name : String) {bits n : Nat} (h : n < 2 ^ bits) :
    Kind.encode name (.number (.int n)) (.uint bits) = .ok (FixedBytes.ofNat 32 n) := by
  simp only [Kind.encode, Kind.encodeUint]
  exact if_pos h

theorem Kind.encode_address (name : String) {s : String} {a : Address}
    (h : Address.parse s = .ok a) : Kind.encode name (.text s) .address = .ok a.toWord := by
  simp only [Kind.encode, Kind.hexText]
  simp only [bind, Except.bind, pure, Except.pure, h]

theorem Kind.encode_checksum (name : String) (a : Address) :
    Kind.encode name (.text a.checksum) .address = .ok a.toWord :=
  encode_address name a.parse_checksum

theorem Kind.encode_text (name s : String) :
    Kind.encode name (.text s) .text = .ok (Keccak.digestText s) := by
  simp only [Kind.encode]

section Single

variable {struct name : String} {ms : List Member} {object : List (String × Value)}

theorem Schema.has_single {kind : String} (other : kind ≠ struct) :
    (Schema.ofList [(struct, ms)]).has kind = false := by
  rw [Schema.has, Schema.members?_single, if_neg (by simpa using other)]
  rfl

theorem Schema.gives_atom {kind : String} {k : Kind} {v : Value} {w : Word}
    (named : Kind.Names kind k) (other : kind ≠ struct) (found : object.lookup name = some v)
    (encoded : k.encode kind v = .ok w) :
    (Schema.ofList [(struct, ms)]).Gives object ⟨name, kind⟩ w := by
  refine ⟨v, found, ?_⟩
  rw [encodeValue_atom v named (has_single other), encoded]

theorem Schema.gives_numeral {n : Nat} (other : "uint256" ≠ struct) (h : n < 2 ^ 256)
    (found : object.lookup name = some (.text (Digits.text n))) :
    (Schema.ofList [(struct, ms)]).Gives object ⟨name, "uint256"⟩ (FixedBytes.ofNat 32 n) :=
  gives_atom Kind.names_uint256 other found (Kind.encode_numeral _ h (Nat.le_refl 256))

theorem Schema.gives_address {a : Address} (other : "address" ≠ struct)
    (found : object.lookup name = some (.text a.checksum)) :
    (Schema.ofList [(struct, ms)]).Gives object ⟨name, "address"⟩ a.toWord :=
  gives_atom Kind.names_address other found (Kind.encode_checksum _ a)

theorem Schema.gives_text {s : String} (other : "string" ≠ struct)
    (found : object.lookup name = some (.text s)) :
    (Schema.ofList [(struct, ms)]).Gives object ⟨name, "string"⟩ (Keccak.digestText s) :=
  gives_atom Kind.names_string other found (Kind.encode_text _ s)

end Single

end TypedData

theorem FixedBytes.toNat_ofNat {n : Nat} (h : n < 2 ^ 256) : (FixedBytes.ofNat 32 n).toNat = n := by
  rw [FixedBytes.toNat, FixedBytes.ofNat, Bytes.toNat_ofNat]
  exact Nat.mod_eq_of_lt h

theorem Uint.toNat_toWord {bits : Nat} (u : Uint bits) (le : bits ≤ 256) :
    u.toWord.toNat = u.val :=
  FixedBytes.toNat_ofNat (Nat.lt_of_lt_of_le u.val_lt (Nat.pow_le_pow_right (by decide) le))

theorem Address.bytes_toWord (a : Address) : a.toWord.bytes = List.replicate 12 0 ++ a.bytes := by
  change Bytes.padLeft 32 a.bytes = _
  rw [Bytes.padLeft, a.length_eq]

theorem Address.toNat_toWord (a : Address) : a.toWord.toNat = a.toNat := by
  rw [FixedBytes.toNat, bytes_toWord]
  rfl

namespace Order

open TypedData (Schema Kind)

def typeString : String :=
  "Order(uint256 salt,address maker,address signer,address taker,uint256 tokenId," ++
    "uint256 makerAmount,uint256 takerAmount,uint256 expiration,uint256 nonce," ++
    "uint256 feeRateBps,uint8 side,uint8 signatureType)"

def words (o : Order) : List Word := [
  o.salt.toWord, o.maker.toWord, o.signer.toWord, o.taker.toWord, o.tokenId.toWord,
  o.makerAmount.toWord, o.takerAmount.toWord, o.expiration.toWord, o.nonce.toWord,
  o.feeRateBps.toWord, FixedBytes.ofNat 32 o.side.number,
  FixedBytes.ofNat 32 o.signatureKind.number]

/-- The bytes that stand for an order. -/
def encoding (o : Order) : Bytes :=
  (Keccak.digestText typeString :: o.words).flatMap (·.bytes)

theorem definitionText_eq : Schema.definitionText struct members = typeString := by
  decide +kernel

theorem members_atoms : ∀ m ∈ members, m.base ≠ struct := by
  decide

theorem gives_uint {bits : Nat} {object : List (String × Value)} {name : String} (u : Uint bits)
    (le : bits ≤ 256) (found : object.lookup name = some (numeral u)) :
    schema.Gives object ⟨name, "uint256"⟩ u.toWord :=
  Schema.gives_numeral (by decide)
    (Nat.lt_of_lt_of_le u.val_lt (Nat.pow_le_pow_right (by decide) le)) found

theorem gives_choice {n : Nat} {object : List (String × Value)} {name : String} (h : n < 2 ^ 8)
    (found : object.lookup name = some (.number (.int n))) :
    schema.Gives object ⟨name, "uint8"⟩ (FixedBytes.ofNat 32 n) :=
  Schema.gives_atom Kind.names_uint8 (by decide) found (Kind.encode_int _ h)

theorem encodeStruct_eq (o : Order) : schema.encodeStruct struct o.message = .ok o.encoding := by
  have wide : 64 ≤ 256 := by decide
  have side : o.side.number < 2 ^ 8 := by cases o.side <;> decide
  have kind : o.signatureKind.number < 2 ^ 8 := by cases o.signatureKind <;> decide
  rw [encoding, ← definitionText_eq, message]
  refine Schema.encodeStruct_single members_atoms ?_
  refine .cons (gives_uint o.salt wide ?_) <| .cons (Schema.gives_address (by decide) ?_) <|
    .cons (Schema.gives_address (by decide) ?_) <| .cons (Schema.gives_address (by decide) ?_) <|
    .cons (gives_uint o.tokenId (Nat.le_refl 256) ?_) <| .cons (gives_uint o.makerAmount wide ?_) <|
    .cons (gives_uint o.takerAmount wide ?_) <| .cons (gives_uint o.expiration wide ?_) <|
    .cons (gives_uint o.nonce wide ?_) <| .cons (gives_uint o.feeRateBps wide ?_) <|
    .cons (gives_choice side ?_) <| .cons (gives_choice kind ?_) .nil
  all_goals
    rw [Json.lookup_sortMembers]
    simp [List.lookup_cons]

theorem values_words (o : Order) : o.words.map FixedBytes.toNat = [
    o.salt.val, o.maker.toNat, o.signer.toNat, o.taker.toNat, o.tokenId.val, o.makerAmount.val,
    o.takerAmount.val, o.expiration.val, o.nonce.val, o.feeRateBps.val, o.side.number,
    o.signatureKind.number] := by
  have side : o.side.number < 2 ^ 256 := by cases o.side <;> decide
  have kind : o.signatureKind.number < 2 ^ 256 := by cases o.signatureKind <;> decide
  simp only [words, List.map_cons, List.map_nil, Address.toNat_toWord, FixedBytes.toNat_ofNat side,
    FixedBytes.toNat_ofNat kind, Uint.toNat_toWord _ (by decide : 64 ≤ 256),
    Uint.toNat_toWord _ (Nat.le_refl 256)]

theorem length_encoding (o : Order) : o.encoding.length = 13 * 32 := by
  simp only [encoding, words, List.flatMap_cons, List.flatMap_nil, List.length_append,
    FixedBytes.length_eq, List.length_nil]

theorem structHash_eq (o : Order) : o.structHash = .ok (Keccak.digest o.encoding) := by
  rw [structHash, Schema.hashStruct, o.encodeStruct_eq]
  rfl

theorem signingHash_eq (o : Order) (d : TypedData.Domain) : o.signingHash d =
    .ok (TypedData.signingDigest d.separator (Keccak.digest o.encoding)) := by
  rw [signingHash, o.structHash_eq]
  rfl

theorem exists_signingHash (o : Order) (d : TypedData.Domain) : ∃ w, o.signingHash d = .ok w :=
  ⟨_, o.signingHash_eq d⟩

def typeDigest : Word :=
  FixedBytes.ofNat 32 0xa852566c4e14d00869b6db0220888a9090a13eccdaea03713ff0a3d27bf9767c

theorem digestText_typeString : Keccak.digestText typeString = typeDigest := by
  rw [Keccak.digestText, Keccak.digest_eq_rows]
  decide +kernel

def polygonSeparator : Word :=
  FixedBytes.ofNat 32 0x1a573e3617c78403b5b4b892827992f027b03d4eaf570048b8ee8cdd84d151be

theorem separator_exchange :
    (TypedData.Domain.exchange Contracts.polygon (Contracts.onPolygon false).exchange).separator =
      polygonSeparator := by
  simp only [TypedData.Domain.separator, TypedData.Domain.encode, TypedData.Domain.typeText,
    TypedData.Domain.entries, TypedData.Domain.exchange, TypedData.Domain.entry, Keccak.digestText,
    Keccak.digest_eq_rows]
  decide +kernel

theorem signingHash_polygon (o : Order) :
    o.signingHash (.exchange Contracts.polygon (Contracts.onPolygon false).exchange) =
      .ok (Keccak.Rows.digest ([0x19, 0x01] ++ polygonSeparator.bytes ++
        (Keccak.Rows.digest ((typeDigest :: o.words).flatMap (·.bytes))).bytes)) := by
  rw [o.signingHash_eq, separator_exchange, TypedData.signingDigest, encoding,
    digestText_typeString, Keccak.digest_eq_rows, Keccak.digest_eq_rows]

def leastBid (makerAmount takerAmount : Uint64) : Order where
  salt := Uint.zero 64
  maker := SecretKey.least.address
  signer := SecretKey.least.address
  taker := Address.zero
  tokenId := ⟨1, by decide⟩
  makerAmount := makerAmount
  takerAmount := takerAmount
  expiration := Uint.zero 64
  nonce := Uint.zero 64
  feeRateBps := Uint.zero 64
  side := .buy
  signatureKind := .externallyOwned

/-- Every order has a digest, that of thirteen words: the digest of the type string, and the value
of each member in the order of their declaration. -/
theorem structHash_eq_digest_words (o : Order) :
    schema.encodeStruct struct o.message = .ok o.encoding ∧
      o.structHash = .ok (Keccak.digest o.encoding) ∧
      o.encoding = (Keccak.digestText typeString :: o.words).flatMap (·.bytes) ∧
      o.encoding.length = 13 * 32 ∧
      o.words.map FixedBytes.toNat = [
        o.salt.val, o.maker.toNat, o.signer.toNat, o.taker.toNat, o.tokenId.val, o.makerAmount.val,
        o.takerAmount.val, o.expiration.val, o.nonce.val, o.feeRateBps.val, o.side.number,
        o.signatureKind.number] ∧
      ((o.words.drop 1).take 3).map (·.bytes) =
        [o.maker, o.signer, o.taker].map fun a => List.replicate 12 0 ++ a.bytes := by
  refine ⟨o.encodeStruct_eq, o.structHash_eq, rfl, o.length_encoding, o.values_words, ?_⟩
  simp only [words, List.drop_succ_cons, List.drop_zero, List.take_succ_cons, List.take_zero,
    List.map_cons, List.map_nil, Address.bytes_toWord]

end Order

namespace Attestation

open TypedData (Schema Kind)

def typeString : String :=
  "ClobAuth(address address,string timestamp,uint256 nonce,string message)"

def words (a : Address) (timestamp nonce : Uint64) : List Word := [
  a.toWord, Keccak.digestText (Digits.text timestamp.val), nonce.toWord,
  Keccak.digestText statement]

/-- The bytes that stand for an attestation. -/
def encoding (a : Address) (timestamp nonce : Uint64) : Bytes :=
  (Keccak.digestText typeString :: words a timestamp nonce).flatMap (·.bytes)

theorem definitionText_eq : Schema.definitionText struct [⟨"address", "address"⟩,
    ⟨"timestamp", "string"⟩, ⟨"nonce", "uint256"⟩, ⟨"message", "string"⟩] = typeString := by
  rfl

theorem typeHash_eq : schema.typeHash struct = .ok (Keccak.digestText typeString) := by
  rw [Schema.typeHash, schema, Schema.typeText?_single _ _ (by decide), definitionText_eq]

theorem encodeStruct_of_encode (a : Address) (timestamp nonce : Uint64) {v : Value}
    (counted : Kind.encode "uint256" v (.uint 256) = .ok nonce.toWord) :
    schema.encodeStruct struct (.ofMembers [
        ("address", .text a.checksum), ("timestamp", .text (Digits.text timestamp.val)),
        ("nonce", v), ("message", .text statement)]) =
      .ok (encoding a timestamp nonce) := by
  rw [encoding, ← definitionText_eq]
  refine Schema.encodeStruct_single (by decide) ?_
  refine .cons (Schema.gives_address (by decide) ?_) <| .cons (Schema.gives_text (by decide) ?_) <|
    .cons (Schema.gives_atom Kind.names_uint256 (by decide) ?_ counted) <|
    .cons (Schema.gives_text (by decide) ?_) .nil
  all_goals
    rw [Json.lookup_sortMembers]
    simp [List.lookup_cons]

theorem nonce_lt (nonce : Uint64) : nonce.val < 2 ^ 256 :=
  Nat.lt_of_lt_of_le nonce.val_lt (Nat.pow_le_pow_right (by decide) (by decide))

theorem encodeStruct_eq (a : Address) (timestamp nonce : Uint64) :
    schema.encodeStruct struct (message a timestamp nonce) =
      .ok (encoding a timestamp nonce) :=
  encodeStruct_of_encode a timestamp nonce (Kind.encode_int "uint256" (nonce_lt nonce))

theorem hashStruct_eq (a : Address) (timestamp nonce : Uint64) :
    schema.hashStruct struct (message a timestamp nonce) =
      .ok (Keccak.digest (encoding a timestamp nonce)) := by
  rw [Schema.hashStruct, encodeStruct_eq]
  rfl

theorem length_encoding (a : Address) (timestamp nonce : Uint64) :
    (encoding a timestamp nonce).length = 5 * 32 := by
  simp only [encoding, words, List.flatMap_cons, List.flatMap_nil, List.length_append,
    FixedBytes.length_eq, List.length_nil]

end Attestation

end VenueSigner
