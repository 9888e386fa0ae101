import VenueSigner.Proofs.KeccakRows
import VenueSigner.Proofs.NumberItem
import VenueSigner.Proofs.ReadBack
/-!
What is sent for a transaction tells all of it. A strict reader finds nine items, numbers in their
shortest form, and from these the transaction, the chain in the first number of the signature, and
the signature itself are put together again.
-/

namespace VenueSigner

namespace Bytes

theorem padLeft_trimZeros (b : Bytes) : padLeft b.length b.trimZeros = b := by
  induction b with
  | nil => rfl
  | cons x rest ih =>
    by_cases zero : x = 0
    · subst zero
      have fewer : (trimZeros rest).length ≤ rest.length := (List.dropWhile_suffix _).length_le
      change padLeft (rest.length + 1) (trimZeros rest) = 0 :: rest
      rw [padLeft, Nat.succ_sub fewer, List.replicate_succ, List.cons_append]
      exact congrArg _ ih
    · rw [trimZeros, List.dropWhile_cons_of_neg (by simpa using zero), padLeft, Nat.sub_self]
      rfl

end Bytes

def Uint.ofShortest? (bits : Nat) (b : Bytes) : Option (Uint bits) :=
  if b.head? = some 0 then none else Uint.ofNat? bits b.toNat

def FixedBytes.ofShortest? (size : Nat) (b : Bytes) : Option (FixedBytes size) :=
  if b.head? = some 0 then none else FixedBytes.ofBytes? size (b.padLeft size)

def Signature.chainOf (v : Uint64) : Uint64 :=
  ⟨(v.val - 35) / 2, by have := v.val_lt; omega⟩

theorem Signature.recoveryId_lt (sig : Signature) : sig.recoveryId < 2 := by
  unfold recoveryId
  cases sig.odd <;> decide

/-- A transaction and its signature, read off the bytes that are sent. -/
def Transaction.ofRaw? (raw : Bytes) : Option (Transaction × Signature) :=
  match Rlp.decode? raw with
  | some (.list [.bytes nonce, .bytes gasPrice, .bytes gasLimit, .bytes recipient, .bytes value,
      .bytes data, .bytes v, .bytes r, .bytes s], []) => do
    let v ← Uint.ofShortest? 64 v
    return (⟨← Uint.ofShortest? 64 nonce, ← Uint.ofShortest? 128 gasPrice,
        ← Uint.ofShortest? 64 gasLimit, ← FixedBytes.ofBytes? 20 recipient,
        ← Uint.ofShortest? 256 value, data, Signature.chainOf v⟩,
      ⟨← FixedBytes.ofShortest? 32 r, ← FixedBytes.ofShortest? 32 s, (v.val - 35) % 2 = 1⟩)
  | _ => none

theorem Uint.ofShortest?_shortest {bits : Nat} (n : Uint bits) :
    ofShortest? bits (Bytes.shortest n.val) = some n := by
  rw [ofShortest?, if_neg (Bytes.head?_shortest n.val), Bytes.toNat_shortest, ofNat?_val]

theorem FixedBytes.ofShortest?_trimZeros {size : Nat} (b : FixedBytes size) :
    ofShortest? size b.bytes.trimZeros = some b := by
  have padded := Bytes.padLeft_trimZeros b.bytes
  rw [b.length_eq] at padded
  rw [ofShortest?, if_neg (Bytes.trimZeros_spec b.bytes).2, padded, ofBytes?_bytes]

namespace Rlp

theorem encodeNumber_eq (b : Bytes) : encodeNumber b = (Item.bytes b.trimZeros).encode := by
  rw [Item.encode]
  rfl

theorem encodeUint_eq {bits : Nat} (n : Uint bits) (whole : 8 * (bits / 8) = bits) :
    encodeUint n = (Item.bytes (Bytes.shortest n.val)).encode := by
  rw [encodeUint, encodeNumber_eq, Bytes.trimZeros_eq, Uint.toNat_ofNat whole]

theorem lengthBytes_le_eight {n : Nat} (h : n < 2 ^ 64) : lengthBytes n ≤ 8 := by
  unfold lengthBytes
  split
  · exact Nat.zero_le 8
  · exact Bytes.length_shortest_le_of_lt h

theorem length_payload_texts_le {fields : List Bytes} (h : ∀ b ∈ fields, b.length < 2 ^ 64) :
    (Item.list (fields.map .bytes)).payload.length ≤ fields.flatten.length + 9 * fields.length := by
  induction fields with
  | nil => exact Nat.le_refl 0
  | cons b rest ih =>
    have first := length_encodeBytes_le b
    have few := lengthBytes_le_eight (h b List.mem_cons_self)
    have others := ih fun c hc => h c (List.mem_cons_of_mem b hc)
    rw [Item.payload] at others ⊢
    rw [List.map_cons, Item.encodeAll, Item.encode, List.flatten_cons, List.length_append,
      List.flatten_cons, List.length_append, List.length_cons]
    omega

end Rlp

namespace Transaction

variable (t : Transaction) (sig : Signature)

def fields (v : Uint64) : List Bytes := [
  Bytes.shortest t.nonce.val, Bytes.shortest t.gasPrice.val, Bytes.shortest t.gasLimit.val,
  t.recipient.bytes, Bytes.shortest t.value.val, t.data, Bytes.shortest v.val,
  sig.r.bytes.trimZeros, sig.s.bytes.trimZeros]

theorem raw_eq (v : Uint64) :
    Rlp.encodeList (t.baseFields ++
      [Rlp.encodeUint v, Rlp.encodeNumber sig.r.bytes, Rlp.encodeNumber sig.s.bytes]) =
      (Rlp.Item.list ((t.fields sig v).map .bytes)).encode := by
  simp only [baseFields, Rlp.encodeUint_eq _ (by decide : 8 * (64 / 8) = 64),
    Rlp.encodeUint_eq _ (by decide : 8 * (128 / 8) = 128),
    Rlp.encodeUint_eq _ (by decide : 8 * (256 / 8) = 256), Rlp.encodeNumber_eq, fields, List.map,
    Rlp.Item.encode, Rlp.Item.encodeAll, List.cons_append, List.nil_append]

def recoveryValue : Nat :=
  2 * t.chainId.val + 35 + sig.recoveryId

theorem withSignature_of_lt (room : t.recoveryValue sig < 2 ^ 64) :
    let raw := (Rlp.Item.list ((t.fields sig ⟨t.recoveryValue sig, room⟩).map .bytes)).encode
    t.withSignature sig =
      .ok ⟨raw, Keccak.digest raw, ⟨t.recoveryValue sig, room⟩, sig.r, sig.s⟩ := by
  have number : t.recoveryNumber sig = .ok ⟨t.recoveryValue sig, room⟩ := by
    rw [recoveryNumber, ← recoveryValue, Uint.ofNat?_of_lt room]
  rw [withSignature, number, ← raw_eq]
  rfl

theorem withSignature_of_le (large : 2 ^ 64 ≤ t.recoveryValue sig) :
    t.withSignature sig = .error (.recoveryOverflow t.chainId) := by
  have number : t.recoveryNumber sig = .error (.recoveryOverflow t.chainId) := by
    rw [recoveryNumber, ← recoveryValue, Uint.ofNat?_eq_none_iff.2 large]
  rw [withSignature, number]
  rfl

theorem sign_eq {t : Transaction} {sig : Signature} {signer : Signer}
    (h : signer.signWord t.signingHash = .ok sig) : t.sign signer = t.withSignature sig := by
  rw [sign, h]
  rfl

theorem length_fields_le (v : Uint64) :
    (∀ b ∈ t.fields sig v, b.length ≤ max 32 t.data.length) ∧
      (t.fields sig v).flatten.length + 9 * (t.fields sig v).length ≤ t.data.length + 337 := by
  have word (n : Uint64) : (Bytes.shortest n.val).length ≤ 8 :=
    Bytes.length_shortest_le_of_lt n.val_lt
  have gasPrice : (Bytes.shortest t.gasPrice.val).length ≤ 16 :=
    Bytes.length_shortest_le_of_lt t.gasPrice.val_lt
  have value : (Bytes.shortest t.value.val).length ≤ 32 :=
    Bytes.length_shortest_le_of_lt t.value.val_lt
  have part (w : Word) : w.bytes.trimZeros.length ≤ 32 :=
    Nat.le_trans (List.dropWhile_suffix _).length_le (Nat.le_of_eq w.length_eq)
  have nonce := word t.nonce
  have gasLimit := word t.gasLimit
  have number := word v
  have r := part sig.r
  have s := part sig.s
  have recipient := t.recipient.length_eq
  constructor
  · simp only [fields, List.forall_mem_cons, List.not_mem_nil, false_implies, implies_true,
      and_true]
    omega
  · simp only [fields, List.flatten_cons, List.flatten_nil, List.length_append, List.length_cons,
      List.length_nil]
    omega

theorem decode?_raw (v : Uint64) (fits : t.data.length < 2 ^ 63) :
    Rlp.decode? (Rlp.Item.list ((t.fields sig v).map .bytes)).encode =
      some (.list ((t.fields sig v).map .bytes), []) := by
  obtain ⟨each, total⟩ := t.length_fields_le sig v
  have long := Rlp.length_payload_texts_le fun b hb =>
    Nat.lt_of_le_of_lt (each b hb) (by omega : max 32 t.data.length < 2 ^ 64)
  have read := (Rlp.Item.list ((t.fields sig v).map .bytes)).decode?_encode (by omega) []
  rwa [List.append_nil] at read

theorem ofRaw?_raw {v : Uint64} (number : v.val = t.recoveryValue sig)
    (fits : t.data.length < 2 ^ 63) :
    ofRaw? (Rlp.Item.list ((t.fields sig v).map .bytes)).encode = some (t, sig) := by
  have chain : Signature.chainOf v = t.chainId := by
    have parity := sig.recoveryId_lt
    apply Uint.eq_of_val_eq
    change (v.val - 35) / 2 = t.chainId.val
    rw [number, recoveryValue]
    omega
  have odd : decide ((v.val - 35) % 2 = 1) = sig.odd := by
    rw [number, recoveryValue, Signature.recoveryId]
    cases sig.odd <;> simp
  rw [ofRaw?, t.decode?_raw sig v fits]
  simp [fields, Uint.ofShortest?_shortest, FixedBytes.ofShortest?_trimZeros, chain, odd]

end Transaction

/-- The bytes to send tell the transaction and the signature: they are nine items with the numbers
in their shortest form, from which the parts of the signature come back when zeros are put in front.
The first number of the signature tells the chain and the public key. -/
structure SignedTransaction.Tells (x : SignedTransaction) (t : Transaction) (sig : Signature) :
    Prop where
  items : ∃ nonce gasPrice gasLimit value v r s : Bytes,
    Rlp.decode? x.raw = some (.list (List.map .bytes
      [nonce, gasPrice, gasLimit, t.recipient.bytes, value, t.data, v, r, s]), []) ∧
    nonce.Shortest t.nonce.val ∧ gasPrice.Shortest t.gasPrice.val ∧
    gasLimit.Shortest t.gasLimit.val ∧ value.Shortest t.value.val ∧ v.Shortest x.v.val ∧
    r.Shortest sig.r.toNat ∧ s.Shortest sig.s.toNat ∧
    r.padLeft 32 = sig.r.bytes ∧ s.padLeft 32 = sig.s.bytes
  chain : t.chainId.val = (x.v.val - 35) / 2
  recovery : sig.recoveryId = (x.v.val - 35) % 2
  rebuilt : Transaction.ofRaw? x.raw = some (t, sig)
  parts : x.r = sig.r ∧ x.s = sig.s ∧ x.hash = Keccak.digest x.raw
  text : Hex.decode x.text = .ok x.raw

namespace Transaction

theorem tells_of_withSignature {t : Transaction} {sig : Signature} {x : SignedTransaction}
    (fits : t.data.length < 2 ^ 63) (h : t.withSignature sig = .ok x) :
    x.v.val = t.recoveryValue sig ∧ x.Tells t sig := by
  by_cases room : t.recoveryValue sig < 2 ^ 64
  · rw [t.withSignature_of_lt sig room, Except.ok.injEq] at h
    subst h
    have parity := sig.recoveryId_lt
    have padded (w : Word) : w.bytes.trimZeros.padLeft 32 = w.bytes := by
      have restored := Bytes.padLeft_trimZeros w.bytes
      rwa [w.length_eq] at restored
    refine ⟨rfl, ?_⟩
    exact {
      items := ⟨_, _, _, _, _, _, _, t.decode?_raw sig _ fits, Bytes.shortest_spec _,
        Bytes.shortest_spec _, Bytes.shortest_spec _, Bytes.shortest_spec _,
        Bytes.shortest_spec _, Bytes.trimZeros_spec _, Bytes.trimZeros_spec _, padded _, padded _⟩
      chain := by
        change _ = (2 * t.chainId.val + 35 + sig.recoveryId - 35) / 2
        omega
      recovery := by
        change _ = (2 * t.chainId.val + 35 + sig.recoveryId - 35) % 2
        omega
      rebuilt := t.ofRaw?_raw sig rfl fits
      parts := ⟨rfl, rfl, rfl⟩
      text := Hex.decode_encodePrefixed _ }
  · rw [t.withSignature_of_le sig (Nat.le_of_not_lt room)] at h
    contradiction

/-- A transaction can be signed exactly when the number that names its chain and the public key has
64 bits, and then the bytes to send tell the transaction and the signature. Data is shorter than
`2 ^ 63` bytes, as every byte string in memory. -/
theorem sign_tells (t : Transaction) (sig : Signature) (fits : t.data.length < 2 ^ 63) :
    (∀ signer : Signer, signer.signWord t.signingHash = .ok sig →
      t.sign signer = t.withSignature sig) ∧
      ((∃ x, t.withSignature sig = .ok x) ↔ 2 * t.chainId.val + 35 + sig.recoveryId < 2 ^ 64) ∧
      (∀ e, t.withSignature sig = .error e →
        e = .recoveryOverflow t.chainId ∧ e.kind = .numericOverflow) ∧
      ∀ x, t.withSignature sig = .ok x →
        x.v.val = 2 * t.chainId.val + 35 + sig.recoveryId ∧ x.Tells t sig := by
  refine ⟨fun _ => sign_eq, ?_, ?_, fun _ => tells_of_withSignature fits⟩
  · constructor
    · rintro ⟨x, signed⟩
      have number := (tells_of_withSignature fits signed).1
      change t.recoveryValue sig < 2 ^ 64
      rw [← number]
      exact x.v.val_lt
    · intro room
      exact ⟨_, t.withSignature_of_lt sig room⟩
  · intro e failed
    by_cases room : t.recoveryValue sig < 2 ^ 64
    · rw [t.withSignature_of_lt sig room] at failed
      contradiction
    · rw [t.withSignature_of_le sig (Nat.le_of_not_lt room), Except.error.injEq] at failed
      subst failed
      exact ⟨rfl, rfl⟩

def onLastChain : Transaction where
  nonce := Uint.zero 64
  gasPrice := ⟨20000000000, by decide⟩
  gasLimit := ⟨21000, by decide⟩
  recipient := FixedBytes.ofNat 20 0x3535353535353535353535353535353535353535
  value := ⟨10 ^ 18, by decide⟩
  data := [0x09, 0x5e, 0xa7, 0xb3]
  chainId := ⟨2 ^ 63 - 19, by decide⟩

def smallSignature : Signature :=
  ⟨FixedBytes.ofNat 32 1, FixedBytes.ofNat 32 (2 ^ 255), true⟩

def onLastChainDigest : Word :=
  FixedBytes.ofNat 32 0x7f056eda2b3d7e87d99355632a4326a0d8edeade1ecb7dbfdce0b7770c54a2e3

theorem signingHash_onLastChain : onLastChain.signingHash = onLastChainDigest := by
  rw [signingHash, Keccak.digest_eq_rows]
  refine FixedBytes.ext ?_
  decide +kernel

theorem isSome_sign?_onLastChainDigest : (SecretKey.least.sign? onLastChainDigest).isSome := by
  decide +kernel

theorem sign_tells_onLastChain : onLastChain.data.length < 2 ^ 63 ∧
    (∃ x, onLastChain.withSignature smallSignature = .ok x ∧
      x.Tells onLastChain smallSignature) ∧
    ∃ signature x, SecretKey.least.sign? onLastChain.signingHash = some signature ∧
      onLastChain.sign (.ofKey .least onLastChain.chainId) = .ok x ∧
      x.Tells onLastChain signature := by
  have fits : onLastChain.data.length < 2 ^ 63 := by decide
  refine ⟨fits, ?_, ?_⟩
  · obtain ⟨_, room, _, tells⟩ := sign_tells onLastChain smallSignature fits
    obtain ⟨x, signed⟩ := room.2 (by decide)
    exact ⟨x, signed, (tells x signed).2⟩
  · obtain ⟨signature, known⟩ := Option.isSome_iff_exists.1 isSome_sign?_onLastChainDigest
    rw [← signingHash_onLastChain] at known
    obtain ⟨same, room, _, tells⟩ := sign_tells onLastChain signature fits
    have parity := signature.recoveryId_lt
    obtain ⟨x, signed⟩ := room.2 (by change 2 * (2 ^ 63 - 19) + 35 + _ < _; omega)
    let signer := Signer.ofKey .least onLastChain.chainId
    have word : signer.signWord onLastChain.signingHash = .ok signature :=
      Signer.signWord_eq_ok_iff.2 known
    exact ⟨signature, x, known, (same signer word).trans signed, (tells x signed).2⟩

end Transaction

end VenueSigner
