import VenueSigner.Proofs.ItemReader
/-!
Numbers as items. A number has one encoding, that of its shortest bytes: zeros in front of the bytes
that it is given in do not count, nor how many bits it has room for. So encodings are equal only if
the numbers are, and a strict reader finds no zero in front.
-/

namespace VenueSigner

namespace Bytes

/-- The bytes denote the number and do not start with a zero. -/
def Shortest (b : Bytes) (n : Nat) : Prop :=
  b.toNat = n ∧ b.head? ≠ some 0

theorem shortest_spec (n : Nat) : Shortest (shortest n) n :=
  ⟨toNat_shortest n, head?_shortest n⟩

theorem Shortest.eq {b : Bytes} {n : Nat} (h : Shortest b n) : b = shortest n := by
  obtain ⟨rfl, canonical⟩ := h
  exact (shortest_toNat canonical).symm

theorem trimZeros_spec (b : Bytes) : Shortest b.trimZeros b.toNat := by
  refine ⟨toNat_trimZeros b, fun front => ?_⟩
  have kept := List.head?_dropWhile_not (· == 0) b
  rw [← trimZeros, front] at kept
  contradiction

theorem trimZeros_eq (b : Bytes) : b.trimZeros = shortest b.toNat :=
  (trimZeros_spec b).eq

theorem toNat_zeros (count : Nat) (b : Bytes) :
    toNat (List.replicate count 0 ++ b) = toNat b := by
  rw [toNat, List.map_append, List.map_replicate]
  exact Positional.value_zeros count _

end Bytes

namespace Rlp

theorem encodeBytes_injective : Function.Injective encodeBytes := by
  intro a b same
  have near : Near a.length b.length := by
    have lowA := le_length_encodeBytes a
    have highA := length_encodeBytes_le a
    have lowB := le_length_encodeBytes b
    have highB := length_encodeBytes_le b
    rw [same] at lowA highA
    cases Nat.le_total a.length b.length with
    | inl le =>
      have grows := lengthBytes_mono le
      exact ⟨by omega, by omega⟩
    | inr le =>
      have grows := lengthBytes_mono le
      exact ⟨by omega, by omega⟩
  exact (encodeBytes_append_inj (s := []) (t := []) near (by rw [same])).1

theorem encodeNumber_eq_encodeBytes (b : Bytes) :
    encodeNumber b = encodeBytes (Bytes.shortest b.toNat) := by
  rw [encodeNumber, Bytes.trimZeros_eq]

theorem encodeNumber_eq_iff {b c : Bytes} :
    encodeNumber b = encodeNumber c ↔ b.toNat = c.toNat := by
  rw [encodeNumber_eq_encodeBytes, encodeNumber_eq_encodeBytes, encodeBytes_injective.eq_iff]
  constructor
  · exact Bytes.shortest_injective
  · exact congrArg Bytes.shortest

theorem encodeNumber_eq_nil_iff {b : Bytes} : encodeNumber b = encodeBytes [] ↔ b.toNat = 0 :=
  encodeNumber_eq_iff (c := [])

theorem decode?_encodeNumber {b : Bytes} (room : (Bytes.shortest b.toNat).length < 2 ^ 64)
    (rest : Bytes) :
    decode? (encodeNumber b ++ rest) = some (.bytes (Bytes.shortest b.toNat), rest) := by
  have read := Item.decode?_encode (.bytes (Bytes.shortest b.toNat)) room rest
  rw [Item.encode] at read
  rw [encodeNumber_eq_encodeBytes, read]

variable {bits wide : Nat}

theorem encodeUint_eq_encodeNumber_iff (whole : 8 * (bits / 8) = bits) (n : Uint bits) (b : Bytes) :
    encodeUint n = encodeNumber b ↔ n.val = b.toNat := by
  rw [encodeUint, encodeNumber_eq_iff, Uint.toNat_ofNat whole]

theorem encodeUint_eq_encodeUint_iff (whole : 8 * (bits / 8) = bits)
    (whole' : 8 * (wide / 8) = wide) (n : Uint bits) (m : Uint wide) :
    encodeUint n = encodeUint m ↔ n.val = m.val := by
  rw [encodeUint.eq_1 m, encodeUint_eq_encodeNumber_iff whole, Uint.toNat_ofNat whole']

/-- A number is encoded in one way, whatever zeros stand in front of its bytes and however many bits
it has room for: as its shortest bytes, which a strict reader gives back. For zero these are none.
Different numbers are encoded differently. -/
theorem encodeNumber_canonical :
    (∀ b c : Bytes, encodeNumber b = encodeNumber c ↔ b.toNat = c.toNat) ∧
    (∀ (b : Bytes) (zeros : Nat),
      encodeNumber (List.replicate zeros 0 ++ b) = encodeNumber b) ∧
    (∀ b : Bytes, ∃ payload, Bytes.Shortest payload b.toNat ∧
      encodeNumber b = encodeBytes payload ∧
      (payload.length < 2 ^ 64 →
        ∀ rest, decode? (encodeNumber b ++ rest) = some (.bytes payload, rest))) ∧
    (∀ b : Bytes, encodeNumber b = encodeBytes [] ↔ b.toNat = 0) ∧
    ∀ bits ∈ [64, 128, 256], ∀ n : Uint bits,
      (∀ b : Bytes, encodeUint n = encodeNumber b ↔ n.val = b.toNat) ∧
      ∀ wide ∈ [64, 128, 256], ∀ m : Uint wide, encodeUint n = encodeUint m ↔ n.val = m.val := by
  have widths : ∀ bits ∈ [64, 128, 256], 8 * (bits / 8) = bits := by decide
  refine ⟨fun b c => encodeNumber_eq_iff, fun b zeros => ?_, fun b => ?_,
    fun b => encodeNumber_eq_nil_iff, fun bits known n => ⟨fun b => ?_, fun wide known' m => ?_⟩⟩
  · rw [encodeNumber_eq_iff, Bytes.toNat_zeros]
  · exact ⟨Bytes.shortest b.toNat, Bytes.shortest_spec b.toNat, encodeNumber_eq_encodeBytes b,
      decode?_encodeNumber⟩
  · exact encodeUint_eq_encodeNumber_iff (widths bits known) n b
  · exact encodeUint_eq_encodeUint_iff (widths bits known) (widths wide known') n m

end Rlp

end VenueSigner
