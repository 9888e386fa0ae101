import VenueSigner.Chain.Transaction
/-!
What is signed for a transaction names it: two transactions with one payload are the same. Headers
are told apart by their first byte as long as the lengths they stand for are of nearly the same
size, and equal payloads have fields of nearly the same size.
-/

namespace VenueSigner

theorem Bytes.toNat_trimZeros (b : Bytes) : b.trimZeros.toNat = b.toNat := by
  induction b with
  | nil => rfl
  | cons x rest ih =>
    by_cases zero : x = 0
    · subst zero
      exact ih
    · rw [Bytes.trimZeros, List.dropWhile_cons_of_neg (by simpa using zero)]

theorem Bytes.shortest_zero : Bytes.shortest 0 = [] := by
  rw [Bytes.shortest, if_pos rfl]

theorem Bytes.shortest_of_ne {n : Nat} (h : n ≠ 0) :
    Bytes.shortest n = Bytes.shortest (n / 256) ++ [UInt8.ofNat n] := by
  rw [Bytes.shortest, if_neg h]

theorem Bytes.length_shortest_of_ne {n : Nat} (h : n ≠ 0) :
    (Bytes.shortest n).length = (Bytes.shortest (n / 256)).length + 1 := by
  rw [Bytes.shortest_of_ne h, List.length_append, List.length_singleton]

theorem Bytes.length_shortest_mono {m n : Nat} (h : m ≤ n) :
    (Bytes.shortest m).length ≤ (Bytes.shortest n).length := by
  induction n using Nat.strongRecOn generalizing m with
  | ind n ih =>
    by_cases zero : m = 0
    · rw [zero, Bytes.shortest_zero]
      exact Nat.zero_le _
    · have smaller := ih (n / 256) (by omega) (Nat.div_le_div_right (c := 256) h)
      rw [Bytes.length_shortest_of_ne zero, Bytes.length_shortest_of_ne (by omega : n ≠ 0)]
      omega

theorem Bytes.length_shortest_mul {n : Nat} (h : n ≠ 0) :
    (Bytes.shortest (256 * n)).length = (Bytes.shortest n).length + 1 := by
  rw [Bytes.length_shortest_of_ne (by omega), Nat.mul_div_cancel_left n (by decide)]

theorem Bytes.length_shortest_le (n : Nat) : (Bytes.shortest n).length ≤ n := by
  induction n using Nat.strongRecOn with
  | ind n ih =>
    by_cases zero : n = 0
    · rw [zero, Bytes.shortest_zero]
      exact Nat.le_refl 0
    · have smaller := ih (n / 256) (by omega)
      rw [Bytes.length_shortest_of_ne zero]
      omega

theorem Bytes.shortest_injective {m n : Nat} (h : Bytes.shortest m = Bytes.shortest n) : m = n := by
  have value := congrArg Bytes.toNat h
  rwa [Bytes.toNat_shortest, Bytes.toNat_shortest] at value

theorem Uint.toNat_ofNat {bits : Nat} (whole : 8 * (bits / 8) = bits) (n : Uint bits) :
    (Bytes.ofNat (bits / 8) n.val).toNat = n.val := by
  have power : 256 ^ (bits / 8) = 2 ^ bits := by
    rw [show 256 = 2 ^ 8 from rfl, ← Nat.pow_mul, whole]
  rw [Bytes.toNat_ofNat, power, Nat.mod_eq_of_lt n.val_lt]

namespace Rlp

def lengthBytes (n : Nat) : Nat :=
  if n < 56 then 0 else (Bytes.shortest n).length

theorem length_header (offset n : Nat) : (header offset n).length = lengthBytes n + 1 := by
  unfold header lengthBytes
  split
  · rfl
  · rfl

theorem lengthBytes_of_lt {n : Nat} (h : n < 56) : lengthBytes n = 0 := if_pos h

theorem lengthBytes_of_le {n : Nat} (h : 56 ≤ n) : lengthBytes n = (Bytes.shortest n).length :=
  if_neg (by omega)

theorem lengthBytes_pos {n : Nat} (h : 56 ≤ n) : 0 < lengthBytes n := by
  rw [lengthBytes_of_le h, Bytes.length_shortest_of_ne (by omega)]
  exact Nat.succ_pos _

theorem lengthBytes_mono {m n : Nat} (h : m ≤ n) : lengthBytes m ≤ lengthBytes n := by
  by_cases short : m < 56
  · rw [lengthBytes_of_lt short]
    exact Nat.zero_le _
  · rw [lengthBytes_of_le (by omega), lengthBytes_of_le (by omega)]
    exact Bytes.length_shortest_mono h

/-- The headers of two lengths differ by at most one byte. -/
def Near (m n : Nat) : Prop :=
  lengthBytes m ≤ lengthBytes n + 1 ∧ lengthBytes n ≤ lengthBytes m + 1

theorem Near.symm {m n : Nat} (h : Near m n) : Near n m := ⟨h.2, h.1⟩

theorem near_of_lt {m n : Nat} (hm : m < 56) (hn : n < 56) : Near m n := by
  rw [Near, lengthBytes_of_lt hm, lengthBytes_of_lt hn]
  decide

theorem lengthBytes_le_one {n : Nat} (h : n < 256) : lengthBytes n ≤ 1 := by
  calc lengthBytes n ≤ lengthBytes 255 := lengthBytes_mono (by omega)
    _ = 1 := by
      rw [lengthBytes_of_le (by decide), Bytes.length_shortest_of_ne (by decide),
        Bytes.shortest_zero]
      rfl

theorem lengthBytes_le_of_le {m n : Nat} (h : n ≤ m + lengthBytes m + 16) :
    lengthBytes n ≤ lengthBytes m + 1 := by
  by_cases short : m < 56
  · rw [lengthBytes_of_lt short] at h ⊢
    exact lengthBytes_le_one (by omega)
  · have few := Bytes.length_shortest_le m
    have wide : lengthBytes (256 * m) = lengthBytes m + 1 := by
      rw [lengthBytes_of_le (by omega), lengthBytes_of_le (by omega),
        Bytes.length_shortest_mul (by omega)]
    rw [lengthBytes_of_le (by omega : 56 ≤ m)] at h
    have bound := lengthBytes_mono (by omega : n ≤ 256 * m)
    omega

/-- A header tells its length, among lengths of nearly the same size. -/
theorem header_append_inj {offset m n : Nat} {s t : Bytes} (low : offset ≤ listOffset)
    (near : Near m n) (h : header offset m ++ s = header offset n ++ t) : m = n ∧ s = t := by
  have low' : offset ≤ 192 := low
  have same : m = n := by
    unfold header at h
    obtain ⟨below, above⟩ := near
    -- lengths so near have first bytes that do not go around at 256
    by_cases hm : m < 56
    · by_cases hn : n < 56
      · rw [if_pos hm, if_pos hn] at h
        have first := congrArg UInt8.toNat (List.cons.inj h).1
        rw [UInt8.toNat_ofNat', UInt8.toNat_ofNat'] at first
        omega
      · rw [if_pos hm, if_neg hn] at h
        have first := congrArg UInt8.toNat (List.cons.inj h).1
        have some := lengthBytes_pos (by omega : 56 ≤ n)
        rw [lengthBytes_of_lt hm] at above
        rw [lengthBytes_of_le (by omega)] at above some
        rw [UInt8.toNat_ofNat', UInt8.toNat_ofNat'] at first
        omega
    · by_cases hn : n < 56
      · rw [if_neg hm, if_pos hn] at h
        have first := congrArg UInt8.toNat (List.cons.inj h).1
        have some := lengthBytes_pos (by omega : 56 ≤ m)
        rw [lengthBytes_of_lt hn] at below
        rw [lengthBytes_of_le (by omega)] at below some
        rw [UInt8.toNat_ofNat', UInt8.toNat_ofNat'] at first
        omega
      · rw [if_neg hm, if_neg hn] at h
        have first := congrArg UInt8.toNat (List.cons.inj h).1
        rw [lengthBytes_of_le (by omega), lengthBytes_of_le (by omega)] at below above
        rw [UInt8.toNat_ofNat', UInt8.toNat_ofNat'] at first
        have digits := (List.append_inj (List.cons.inj h).2 (by omega)).1
        exact Bytes.shortest_injective digits
  subst same
  exact ⟨rfl, List.append_cancel_left h⟩

theorem encodeBytes_cases (b : Bytes) :
    (∃ x : UInt8, b = [x] ∧ x.toNat < 0x80 ∧ encodeBytes b = [x]) ∨
      encodeBytes b = header textOffset b.length ++ b := by
  unfold encodeBytes
  split
  · next x =>
    by_cases low : x.toNat < textOffset
    · exact .inl ⟨x, rfl, low, if_pos low⟩
    · exact .inr (if_neg low)
  · exact .inr rfl

theorem length_encodeBytes_le (b : Bytes) :
    (encodeBytes b).length ≤ b.length + lengthBytes b.length + 1 := by
  obtain ⟨x, rfl, _, alone⟩ | behind := encodeBytes_cases b
  · rw [alone]
    simp
  · rw [behind, List.length_append, length_header]
    omega

theorem le_length_encodeBytes (b : Bytes) :
    b.length + lengthBytes b.length ≤ (encodeBytes b).length := by
  obtain ⟨x, rfl, _, alone⟩ | behind := encodeBytes_cases b
  · have short : lengthBytes [x].length = 0 := lengthBytes_of_lt (by simp)
    rw [alone]
    omega
  · rw [behind, List.length_append, length_header]
    omega

theorem ne_header_append {x : UInt8} {n : Nat} {s t : Bytes} (low : x.toNat < 0x80)
    (near : Near 1 n) : x :: s ≠ header textOffset n ++ t := by
  intro h
  have above := near.2
  rw [lengthBytes_of_lt (by decide : 1 < 56)] at above
  unfold header at h
  by_cases short : n < 56
  · rw [if_pos short] at h
    have first := congrArg UInt8.toNat (List.cons.inj h).1
    rw [UInt8.toNat_ofNat', textOffset] at first
    omega
  · rw [if_neg short] at h
    have first := congrArg UInt8.toNat (List.cons.inj h).1
    rw [lengthBytes_of_le (by omega)] at above
    rw [UInt8.toNat_ofNat', textOffset] at first
    omega

/-- Encoded byte strings of nearly the same size are told apart, whatever follows them. -/
theorem encodeBytes_append_inj {a b s t : Bytes} (near : Near a.length b.length)
    (h : encodeBytes a ++ s = encodeBytes b ++ t) : a = b ∧ s = t := by
  obtain ⟨x, rfl, low, alone⟩ | behind := encodeBytes_cases a
  · obtain ⟨y, rfl, _, alone'⟩ | behind' := encodeBytes_cases b
    · rw [alone, alone'] at h
      obtain ⟨first, rest⟩ := List.cons.inj h
      exact ⟨by rw [first], rest⟩
    · rw [alone, behind', List.append_assoc] at h
      exact absurd h (ne_header_append low near)
  · obtain ⟨y, rfl, low, alone'⟩ | behind' := encodeBytes_cases b
    · rw [alone', behind, List.append_assoc] at h
      exact absurd h.symm (ne_header_append low near.symm)
    · rw [behind, behind', List.append_assoc, List.append_assoc] at h
      obtain ⟨same, rest⟩ := header_append_inj (by decide) near h
      exact List.append_inj rest same

theorem length_trimZeros_ofNat_le (width n : Nat) :
    (Bytes.ofNat width n).trimZeros.length ≤ width := by
  calc (Bytes.ofNat width n).trimZeros.length
      ≤ (Bytes.ofNat width n).length := (List.dropWhile_suffix _).length_le
    _ = width := Bytes.length_ofNat width n

theorem encodeUint_append_inj {bits : Nat} {m n : Uint bits} {s t : Bytes} (le : bits ≤ 256)
    (whole : 8 * (bits / 8) = bits) (h : encodeUint m ++ s = encodeUint n ++ t) :
    m = n ∧ s = t := by
  have short (k : Uint bits) : (Bytes.ofNat (bits / 8) k.val).trimZeros.length < 56 := by
    have bound := length_trimZeros_ofNat_le (bits / 8) k.val
    omega
  have value (k : Uint bits) : (Bytes.ofNat (bits / 8) k.val).trimZeros.toNat = k.val := by
    rw [Bytes.toNat_trimZeros, Uint.toNat_ofNat whole]
  obtain ⟨same, rest⟩ := encodeBytes_append_inj (near_of_lt (short m) (short n)) h
  have equal := congrArg Bytes.toNat same
  rw [value, value] at equal
  exact ⟨Uint.eq_of_val_eq equal, rest⟩

theorem length_encodeUint_le {bits : Nat} (n : Uint bits) (le : bits ≤ 64) :
    (encodeUint n).length ≤ 9 := by
  have bound := length_trimZeros_ofNat_le (bits / 8) n.val
  have encoded := length_encodeBytes_le (Bytes.ofNat (bits / 8) n.val).trimZeros
  rw [lengthBytes_of_lt (by omega)] at encoded
  rw [encodeUint, encodeNumber]
  omega

theorem encodeList_injective {xs ys : List Bytes} (h : encodeList xs = encodeList ys) :
    xs.flatten = ys.flatten := by
  have total := congrArg List.length h
  simp only [encodeList, List.length_append, length_header] at total
  have same : xs.flatten.length = ys.flatten.length := by
    cases Nat.le_total xs.flatten.length ys.flatten.length with
    | inl le =>
      have grows := lengthBytes_mono le
      omega
    | inr le =>
      have grows := lengthBytes_mono le
      omega
  rw [encodeList, encodeList, same] at h
  exact List.append_cancel_left h

end Rlp

namespace Transaction

/-- Transactions with the same payload have the same data, or lengths of data that need nearly the
same number of bytes. -/
theorem near_data {a b : Bytes} {c d : Uint64} {s : Bytes}
    (h : Rlp.encodeBytes a ++ (Rlp.encodeUint c ++ s) =
      Rlp.encodeBytes b ++ (Rlp.encodeUint d ++ s)) :
    Rlp.Near a.length b.length := by
  have total := congrArg List.length h
  simp only [List.length_append] at total
  have shortC := Rlp.length_encodeUint_le c (Nat.le_refl 64)
  have shortD := Rlp.length_encodeUint_le d (Nat.le_refl 64)
  have upperA := Rlp.length_encodeBytes_le a
  have upperB := Rlp.length_encodeBytes_le b
  have lowerA := Rlp.le_length_encodeBytes a
  have lowerB := Rlp.le_length_encodeBytes b
  exact ⟨Rlp.lengthBytes_le_of_le (by omega), Rlp.lengthBytes_le_of_le (by omega)⟩

theorem signingPayload_injective {t u : Transaction} (h : t.signingPayload = u.signingPayload) :
    t = u := by
  have flat := Rlp.encodeList_injective h
  simp only [baseFields, List.cons_append, List.nil_append, List.flatten_cons, List.flatten_nil]
    at flat
  obtain ⟨nonce, flat⟩ := Rlp.encodeUint_append_inj (by decide) (by decide) flat
  obtain ⟨gasPrice, flat⟩ := Rlp.encodeUint_append_inj (by decide) (by decide) flat
  obtain ⟨gasLimit, flat⟩ := Rlp.encodeUint_append_inj (by decide) (by decide) flat
  have short (a : Address) : a.bytes.length < 56 := by
    rw [a.length_eq]
    decide
  obtain ⟨recipient, flat⟩ := Rlp.encodeBytes_append_inj (Rlp.near_of_lt (short _) (short _)) flat
  obtain ⟨value, flat⟩ := Rlp.encodeUint_append_inj (by decide) (by decide) flat
  obtain ⟨data, flat⟩ := Rlp.encodeBytes_append_inj (near_data flat) flat
  obtain ⟨chainId, _⟩ := Rlp.encodeUint_append_inj (by decide) (by decide) flat
  cases t
  cases u
  simp only [mk.injEq]
  exact ⟨nonce, gasPrice, gasLimit, FixedBytes.ext recipient, value, data, chainId⟩

theorem signingPayload_ne_typedData (t : Transaction) {s : Bytes} (length : s.length = 64) :
    t.signingPayload ≠ [0x19, 0x01] ++ s := by
  intro h
  rw [signingPayload, Rlp.encodeList] at h
  generalize (t.baseFields ++ [Rlp.encodeUint t.chainId, Rlp.encodeBytes [],
    Rlp.encodeBytes []]).flatten = payload at h
  have total := congrArg List.length h
  simp only [List.length_append, Rlp.length_header, length, List.length_cons, List.length_nil]
    at total
  -- As long as typed data, the payload's first byte is one of a list.
  unfold Rlp.header at h
  by_cases short : payload.length < 56
  · rw [if_pos short] at h
    have first := congrArg UInt8.toNat (List.cons.inj h).1
    change (192 + payload.length) % 256 = 25 at first
    omega
  · rw [if_neg short] at h
    have first := congrArg UInt8.toNat (List.cons.inj h).1
    have one := Rlp.lengthBytes_le_one (by omega : payload.length < 256)
    rw [Rlp.lengthBytes_of_le (by omega)] at one
    change (192 + 55 + (Bytes.shortest payload.length).length) % 256 = 25 at first
    omega

end Transaction

end VenueSigner
