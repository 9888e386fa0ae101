import VenueSigner.Proofs.PostedOrder
/-!
The headers of a wallet are all that is needed to check them. Whoever receives them reads the
address and the two numbers, builds the attestation from the texts as they stand, and finds the
digest whose signature is in the headers as well.
-/

namespace VenueSigner

open Json (Value)

namespace Attestation

/-- The attestation that headers tell, each text as it stands in its header. -/
def told? (h : Headers) : Option Value := do
  return .ofMembers [
    ("address", .text (← h.lookup "POLY_ADDRESS")),
    ("timestamp", .text (← h.lookup "POLY_TIMESTAMP")),
    ("nonce", .text (← h.lookup "POLY_NONCE")),
    ("message", .text statement)]

def digest (chainId : Uint64) (a : Address) (timestamp nonce : Uint64) : Word :=
  TypedData.signingDigest (TypedData.Domain.attestation chainId).separator
    (Keccak.digest (encoding a timestamp nonce))

theorem signingHash_of_encodeStruct {m : Value} {a : Address} {timestamp nonce : Uint64}
    (chainId : Uint64) (encoded : schema.encodeStruct struct m = .ok (encoding a timestamp nonce)) :
    TypedData.signingHash (.attestation chainId) schema struct m =
      .ok (digest chainId a timestamp nonce) := by
  rw [TypedData.signingHash, TypedData.Schema.hashStruct, encoded]
  rfl

theorem encoding_eq (a : Address) (timestamp nonce : Uint64) : encoding a timestamp nonce =
    (Keccak.digestText typeString).bytes ++ (List.replicate 12 0 ++ a.bytes) ++
      (Keccak.digestText (Digits.text timestamp.val)).bytes ++ Bytes.ofNat 32 nonce.val ++
      (Keccak.digestText statement).bytes := by
  simp only [encoding, words, List.flatMap_cons, List.flatMap_nil, Address.bytes_toWord,
    List.append_assoc, List.append_nil]
  rfl

end Attestation

namespace Signer

variable {s : Signer} {timestamp nonce : Uint64}

/-- Headers that show who sends them. There are four, which name the address and the two numbers;
the attestation of their texts is encoded in five words; and what they carry as signature is, in
hexadecimal digits, one by the key of its digest on the chain. -/
structure Attests (s : Signer) (timestamp nonce : Uint64) (h : Headers) : Prop where
  names : h.map (·.1) = ["POLY_ADDRESS", "POLY_NONCE", "POLY_SIGNATURE", "POLY_TIMESTAMP"]
  address : (h.lookup "POLY_ADDRESS").map Address.parse = some (.ok s.address)
  time : (h.lookup "POLY_TIMESTAMP").bind (Uint.ofNumeral? 64) = some timestamp
  count : (h.lookup "POLY_NONCE").bind (Uint.ofNumeral? 64) = some nonce
  encoded : ∃ m typeHash timeText, Attestation.told? h = some m ∧
    Attestation.schema.typeHash Attestation.struct = .ok typeHash ∧
    h.lookup "POLY_TIMESTAMP" = some timeText ∧
    Attestation.schema.encodeStruct Attestation.struct m = .ok
      (typeHash.bytes ++ (List.replicate 12 0 ++ s.address.bytes) ++
        (Keccak.digestText timeText).bytes ++ Bytes.ofNat 32 nonce.val ++
        (Keccak.digestText Attestation.statement).bytes)
  signed : ∃ m digest signature text, Attestation.told? h = some m ∧
    TypedData.signingHash (.attestation s.chainId) Attestation.schema Attestation.struct m =
      .ok digest ∧
    s.key.sign? digest = some signature ∧
    h.lookup "POLY_SIGNATURE" = some text ∧ text = Hex.encodePrefixed signature.bytes ∧
    Hex.decode text = .ok signature.bytes ∧ signature.bytes.length = 65

def headersWith (s : Signer) (timestamp nonce : Uint64) (signature : Signature) : Headers := [
  ("POLY_ADDRESS", s.address.checksum),
  ("POLY_NONCE", Digits.text nonce.val),
  ("POLY_SIGNATURE", signature.text),
  ("POLY_TIMESTAMP", Digits.text timestamp.val)]

theorem told?_headersWith (signature : Signature) :
    Attestation.told? (s.headersWith timestamp nonce signature) = some (.ofMembers [
      ("address", .text s.address.checksum), ("timestamp", .text (Digits.text timestamp.val)),
      ("nonce", .text (Digits.text nonce.val)), ("message", .text Attestation.statement)]) :=
  rfl

theorem encodeStruct_told (s : Signer) (timestamp nonce : Uint64) :
    Attestation.schema.encodeStruct Attestation.struct (.ofMembers [
      ("address", .text s.address.checksum), ("timestamp", .text (Digits.text timestamp.val)),
      ("nonce", .text (Digits.text nonce.val)), ("message", .text Attestation.statement)]) =
      .ok (Attestation.encoding s.address timestamp nonce) :=
  Attestation.encodeStruct_of_encode s.address timestamp nonce
    (TypedData.Kind.encode_numeral "uint256" (Attestation.nonce_lt nonce) (Nat.le_refl 256))

theorem signAttestation_eq (s : Signer) (timestamp nonce : Uint64) :
    s.signAttestation timestamp nonce =
      s.signText (Attestation.digest s.chainId s.address timestamp nonce) := by
  have hashed := Attestation.signingHash_of_encodeStruct s.chainId
    (Attestation.encodeStruct_eq s.address timestamp nonce)
  simp only [signAttestation, signTypedData, hashed, bind, Except.bind]

/-- Making the headers takes a signature of one digest, and nothing else can fail. -/
theorem walletHeaders_eq (s : Signer) (timestamp : Uint64) (nonce : Option Uint64) :
    let n := nonce.getD (Uint.zero 64)
    s.walletHeaders timestamp nonce =
      (s.signWord (Attestation.digest s.chainId s.address timestamp n)).map
        (s.headersWith timestamp n) := by
  intro n
  rw [walletHeaders, signAttestation_eq, signText]
  cases s.signWord (Attestation.digest s.chainId s.address timestamp n) with
  | ok signature => rfl
  | error e => rfl

theorem attests_headersWith {signature : Signature}
    (signed : s.key.sign? (Attestation.digest s.chainId s.address timestamp nonce) =
      some signature) :
    s.Attests timestamp nonce (s.headersWith timestamp nonce signature) where
  names := rfl
  address := congrArg some s.address.parse_checksum
  time := Uint.ofNumeral?_text timestamp
  count := Uint.ofNumeral?_text nonce
  encoded := by
    refine ⟨_, _, Digits.text timestamp.val, told?_headersWith signature, Attestation.typeHash_eq,
      rfl, ?_⟩
    rw [encodeStruct_told, Attestation.encoding_eq]
  signed := by
    refine ⟨_, _, signature, signature.text, told?_headersWith signature, ?_, signed, rfl,
      rfl, Hex.decode_encodePrefixed signature.bytes, signature.length_bytes⟩
    exact Attestation.signingHash_of_encodeStruct s.chainId (encodeStruct_told s timestamp nonce)

/-- The headers of a wallet show who sends them, and when: whoever has nothing but them finds the
address, the two numbers and the digest that is signed. There are no headers only if the key has no
signature for that digest. -/
theorem walletHeaders_attest (s : Signer) (timestamp : Uint64) (nonce : Option Uint64) :
    let n := nonce.getD (Uint.zero 64)
    (∃ h, s.walletHeaders timestamp nonce = .ok h ∧ s.Attests timestamp n h) ∨
      ∃ digest, TypedData.signingHash (.attestation s.chainId) Attestation.schema
          Attestation.struct (Attestation.message s.address timestamp n) = .ok digest ∧
        s.key.sign? digest = none ∧ s.walletHeaders timestamp nonce = .error .signing := by
  intro n
  have hashed := Attestation.signingHash_of_encodeStruct s.chainId
    (Attestation.encodeStruct_eq s.address timestamp n)
  rw [walletHeaders_eq]
  cases signed : s.key.sign? (Attestation.digest s.chainId s.address timestamp n) with
  | some signature =>
    refine .inl ⟨s.headersWith timestamp n signature, ?_, attests_headersWith signed⟩
    rw [signWord, signed]
    rfl
  | none =>
    refine .inr ⟨_, hashed, signed, ?_⟩
    rw [signWord, signed]
    rfl

end Signer

end VenueSigner
