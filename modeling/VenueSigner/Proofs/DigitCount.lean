import VenueSigner.Chain.Contracts
import VenueSigner.Proofs.HexText
import VenueSigner.Signer
/-!
Addresses and secrets are known by the count of their digits. A missing digit is taken for a zero in
front, if it is only one; any other count is refused, and so is every character that is no digit.
-/

namespace VenueSigner

namespace Hex

/-- The text denotes the number in so many digits, behind one mark or none; of the digits the first
may be missing, which counts as a zero. -/
def Denotes (count : Nat) (s : String) (n : Nat) : Prop :=
  ∃ ds, Writes s ds ∧ (ds.length = count ∨ ds.length + 1 = count) ∧ Positional.value ds = n

theorem denotes_iff {size : Nat} {s : String} {n : Nat} :
    Denotes (2 * size) s n ↔ ∃ b, decode s = .ok b ∧ b.length = size ∧ b.toNat = n := by
  constructor
  · rintro ⟨ds, writes, count, rfl⟩
    obtain ⟨b, decoded, same⟩ := exists_decode writes
    have length := length_of_digits_eq same
    exact ⟨b, decoded, by omega, toNat_of_digits_eq same⟩
  · rintro ⟨b, decoded, rfl, rfl⟩
    obtain ⟨ds, writes, same⟩ := decode_eq_ok_iff.1 decoded
    have length := length_of_digits_eq same
    exact ⟨ds, writes, by omega, (toNat_of_digits_eq same).symm⟩

end Hex

theorem Address.parse_counts (s : String) :
    (∃ a, Address.parse s = .ok a ∧ Hex.Denotes 40 s a.toNat) ∨
      (∃ e, Address.parse s = .error e ∧ e.kind = .invalidAddress) ∧
        ∀ n, ¬ Hex.Denotes 40 s n := by
  simp only [@Hex.denotes_iff 20]
  rw [Address.parse]
  cases decoded : Hex.decode s with
  | error bad => exact .inr ⟨⟨_, rfl, rfl⟩, by simp⟩
  | ok b =>
    by_cases size : b.length = 20
    · refine .inl ⟨⟨b, size⟩, ?_, b, rfl, size, rfl⟩
      simp [ofBytes, FixedBytes.ofBytes?, size]
    · refine .inr ⟨⟨.addressLength s b.length, ?_, rfl⟩, by simp [size]⟩
      simp [ofBytes, FixedBytes.ofBytes?, size]

theorem SecretKey.parse_counts (s : String) :
    (∃ k, SecretKey.parse s = .ok k ∧ Hex.Denotes 64 (Blank.trim s) k.val) ∨
      (∃ e, SecretKey.parse s = .error e ∧ e.kind = .invalidKey) ∧
        ∀ k : SecretKey, ¬ Hex.Denotes 64 (Blank.trim s) k.val := by
  simp only [@Hex.denotes_iff 32]
  delta SecretKey.parse
  cases Hex.decode (Blank.trim s) with
  | error bad => exact .inr ⟨⟨.secretNotHex, rfl, rfl⟩, by simp⟩
  | ok b =>
    by_cases size : b.length = 32
    · by_cases range : 0 < b.toNat ∧ b.toNat < Secp256k1.order
      · refine .inl ⟨⟨b.toNat, range.1, range.2⟩, ?_, b, rfl, size, rfl⟩
        dsimp only
        rw [if_neg (not_not.2 size), ofNat?, dif_pos range]
      · refine .inr ⟨⟨.secretOutOfRange, ?_, rfl⟩, ?_⟩
        · dsimp only
          rw [if_neg (not_not.2 size), ofNat?, dif_neg range]
        · rintro k ⟨_, same, _, number⟩
          obtain rfl := Except.ok.inj same
          exact range (number ▸ ⟨k.pos, k.lt_order⟩)
    · exact .inr ⟨⟨.secretLength b.length, if_pos size, rfl⟩, by simp [size]⟩

theorem SecretKey.exists_parse {s : String} {n : Nat} (h : Hex.Denotes 64 (Blank.trim s) n)
    (range : 0 < n ∧ n < Secp256k1.order) : ∃ k, SecretKey.parse s = .ok k := by
  obtain ⟨k, read, _⟩ | ⟨_, noKey⟩ := SecretKey.parse_counts s
  · exact ⟨k, read⟩
  · exact absurd h (noKey ⟨n, range.1, range.2⟩)

namespace Signer

theorem ofSecret_of_parse {s : String} {k : SecretKey} (h : SecretKey.parse s = .ok k)
    (chainId : Uint64) : ofSecret s chainId = .ok (ofKey k chainId) := by
  rw [ofSecret, h]
  rfl

/-- An address is read from a text if it denotes one in forty digits, of which the first may be
missing, and a signer from a secret, blanks at its ends aside, if it denotes a key in sixty-four.
Every other text is refused as an address, and every other secret as a key. -/
theorem digit_counts (s : String) (chainId : Uint64) :
    ((∃ a, Address.parse s = .ok a ∧ Hex.Denotes 40 s a.toNat) ∨
      (∃ e, Address.parse s = .error e ∧ e.kind = .invalidAddress) ∧
        ∀ n, ¬ Hex.Denotes 40 s n) ∧
    ((∃ k, ofSecret s chainId = .ok (ofKey k chainId) ∧ Hex.Denotes 64 (Blank.trim s) k.val) ∨
      (∃ e, ofSecret s chainId = .error e ∧ e.kind = .invalidKey) ∧
        ∀ k : SecretKey, ¬ Hex.Denotes 64 (Blank.trim s) k.val) := by
  refine ⟨Address.parse_counts s, ?_⟩
  obtain ⟨k, read, digits⟩ | ⟨⟨e, failed, kind⟩, noKey⟩ := SecretKey.parse_counts s
  · exact .inl ⟨k, ofSecret_of_parse read chainId, digits⟩
  · refine .inr ⟨⟨e, ?_, kind⟩, noKey⟩
    rw [ofSecret, failed]
    rfl

/-- An address that has lost its last digit is read as another one, and a secret as another key. -/
theorem read_without_last_digit :
    Address.parse "0xf39fd6e51aad88f6f4ce6ab8827279cfffb9226" =
        .ok (.ofNat 20 0xf39fd6e51aad88f6f4ce6ab8827279cfffb9226) ∧
      (Hex.dropMark "0xf39fd6e51aad88f6f4ce6ab8827279cfffb9226").length ≠ 40 ∧
    (∃ x, ofSecret "0xac0974bec39a17e36ba4a6b4d238ff944bacb478cbed5efcae784d7bf4f2ff8"
        Contracts.polygon = .ok x) ∧
      (Hex.dropMark (Blank.trim
        "0xac0974bec39a17e36ba4a6b4d238ff944bacb478cbed5efcae784d7bf4f2ff8")).length ≠ 64 := by
  have decoded : Hex.decode (Blank.trim
      "0xac0974bec39a17e36ba4a6b4d238ff944bacb478cbed5efcae784d7bf4f2ff8") =
      .ok (Bytes.ofNat 32 0xac0974bec39a17e36ba4a6b4d238ff944bacb478cbed5efcae784d7bf4f2ff8) := rfl
  have digits := (@Hex.denotes_iff 32 _ _).2 ⟨_, decoded, rfl, rfl⟩
  obtain ⟨k, read⟩ := SecretKey.exists_parse digits (by decide)
  exact ⟨rfl, by decide +kernel, ⟨_, ofSecret_of_parse read Contracts.polygon⟩,
    by decide +kernel⟩

end Signer

end VenueSigner
