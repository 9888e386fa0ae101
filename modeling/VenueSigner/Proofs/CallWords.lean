import VenueSigner.Proofs.CallReader
/-!
The words of calls and of answers. A call is told by its bytes, and the words behind its selector
are read as answers are: they give back its addresses, its amount and its flag. An answer is read
from its first word, whatever stands behind that, and fails when there is none or, as a truth value,
when it is neither 0 nor 1.
-/

namespace VenueSigner

namespace Call

theorem short_or_word (returned : Bytes) :
    returned.length < 32 ∨ ∃ (w : Word) (rest : Bytes), returned = w.bytes ++ rest := by
  obtain short | enough := Nat.lt_or_ge returned.length 32
  · exact .inl short
  · have whole : (returned.take 32).length = 32 := List.length_take_of_le enough
    exact .inr ⟨⟨returned.take 32, whole⟩, returned.drop 32, (List.take_append_drop ..).symm⟩

theorem take_word (w : Word) (rest : Bytes) : (w.bytes ++ rest).take 32 = w.bytes :=
  List.take_left' w.length_eq

theorem le_length_word (w : Word) (rest : Bytes) : 32 ≤ (w.bytes ++ rest).length := by
  rw [List.length_append, w.length_eq]
  exact Nat.le_add_right 32 _

theorem readUint_of_lt {returned : Bytes} (short : returned.length < 32) :
    readUint returned = .error (.returnTooShort returned.length) := by
  have few : (returned.take 32).length ≠ 32 := by
    rw [List.take_of_length_le (Nat.le_of_lt short)]
    exact Nat.ne_of_lt short
  rw [readUint, FixedBytes.ofBytes?, dif_neg few]

theorem readUint_append (w : Word) (rest : Bytes) :
    readUint (w.bytes ++ rest) = .ok w.toUint256 := by
  rw [readUint, take_word, FixedBytes.ofBytes?_bytes]

theorem readBool_of_lt {returned : Bytes} (short : returned.length < 32) :
    readBool returned = .error (.returnTooShort returned.length) := by
  rw [readBool, readUint_of_lt short]
  rfl

theorem readBool_append (w : Word) (rest : Bytes) : readBool (w.bytes ++ rest) =
    if w.toNat = 0 then .ok false
    else if w.toNat = 1 then .ok true
    else .error (.returnNotBool w.toNat) := by
  rw [readBool, readUint_append]
  rfl

theorem readUint_eq_ok_iff {returned : Bytes} {n : Uint256} : readUint returned = .ok n ↔
    32 ≤ returned.length ∧ n.val = Bytes.toNat (returned.take 32) := by
  obtain short | ⟨w, rest, rfl⟩ := short_or_word returned
  · rw [readUint_of_lt short]
    exact iff_of_false nofun fun h => Nat.not_le_of_lt short h.1
  · have value : w.toUint256 = n ↔ n.val = Bytes.toNat w.bytes :=
      ⟨fun h => h ▸ rfl, fun h => Uint.eq_of_val_eq h.symm⟩
    rw [readUint_append, take_word, and_iff_right (le_length_word w rest), Except.ok.injEq, value]

theorem readUint_eq_error_iff {returned : Bytes} {e : Error} : readUint returned = .error e ↔
    returned.length < 32 ∧ e = .returnTooShort returned.length := by
  obtain short | ⟨w, rest, rfl⟩ := short_or_word returned
  · rw [readUint_of_lt short, and_iff_right short, Except.error.injEq, eq_comm]
  · rw [readUint_append]
    exact iff_of_false nofun fun h => Nat.not_lt.2 (le_length_word w rest) h.1

theorem readBool_eq_ok_iff {returned : Bytes} {b : Bool} : readBool returned = .ok b ↔
    32 ≤ returned.length ∧ Bytes.toNat (returned.take 32) = b.toNat := by
  obtain short | ⟨w, rest, rfl⟩ := short_or_word returned
  · rw [readBool_of_lt short]
    exact iff_of_false nofun fun h => Nat.not_le_of_lt short h.1
  · rw [readBool_append, take_word, and_iff_right (le_length_word w rest)]
    change _ ↔ w.toNat = b.toNat
    by_cases zero : w.toNat = 0
    · cases b <;> simp [zero]
    · by_cases one : w.toNat = 1
      · cases b <;> simp [one]
      · cases b <;> simp [zero, one]

theorem readBool_eq_error_iff {returned : Bytes} {e : Error} : readBool returned = .error e ↔
    (returned.length < 32 ∧ e = .returnTooShort returned.length) ∨
    (32 ≤ returned.length ∧ 1 < Bytes.toNat (returned.take 32) ∧
      e = .returnNotBool (Bytes.toNat (returned.take 32))) := by
  obtain short | ⟨w, rest, rfl⟩ := short_or_word returned
  · have noWord := Nat.not_le_of_lt short
    simp only [readBool_of_lt short, Except.error.injEq, short, noWord, true_and, false_and,
      or_false, eq_comm]
  · have word := le_length_word w rest
    have enough := Nat.not_lt.2 word
    simp only [readBool_append, take_word, word, enough, true_and, false_and, false_or]
    change _ ↔ 1 < w.toNat ∧ e = .returnNotBool w.toNat
    by_cases zero : w.toNat = 0
    · simp [zero]
    · by_cases one : w.toNat = 1
      · simp [one]
      · have more : 1 < w.toNat := by omega
        simp only [zero, one, more, if_false, true_and, Except.error.injEq, eq_comm]

/-- How the answers to questions are read: from the first word, if there is one, as its number, and
as a truth value only if that is 0 or 1. What stands behind the word does not matter. -/
structure ReadsFirstWord (returned : Bytes) : Prop where
  number (n : Uint256) : readUint returned = .ok n ↔
    32 ≤ returned.length ∧ n.val = Bytes.toNat (returned.take 32)
  noNumber (e : Error) : readUint returned = .error e ↔
    returned.length < 32 ∧ e = .returnTooShort returned.length
  flag (b : Bool) : readBool returned = .ok b ↔
    32 ≤ returned.length ∧ Bytes.toNat (returned.take 32) = b.toNat
  noFlag (e : Error) : readBool returned = .error e ↔
    (returned.length < 32 ∧ e = .returnTooShort returned.length) ∨
    (32 ≤ returned.length ∧ 1 < Bytes.toNat (returned.take 32) ∧
      e = .returnNotBool (Bytes.toNat (returned.take 32)))
  rest (w : Word) : readUint (w.bytes ++ returned) = readUint w.bytes ∧
    readBool (w.bytes ++ returned) = readBool w.bytes

theorem readsFirstWord (returned : Bytes) : ReadsFirstWord returned where
  number _ := readUint_eq_ok_iff
  noNumber _ := readUint_eq_error_iff
  flag _ := readBool_eq_ok_iff
  noFlag _ := readBool_eq_error_iff
  rest w := by
    have alone := readBool_append w []
    rw [List.append_nil] at alone
    rw [readUint_append, readUint_word, readBool_append, alone]
    exact ⟨rfl, rfl⟩

/-- The words give back the arguments of the call: the value of an address, the amount, and the
flag. -/
def Holds (first second : Bytes) : Call → Prop
  | approve spender amount =>
    (readUint first).map (·.val) = .ok spender.toNat ∧ readUint second = .ok amount
  | setApprovalForAll operator approved =>
    (readUint first).map (·.val) = .ok operator.toNat ∧ readBool second = .ok approved
  | allowance owner spender =>
    (readUint first).map (·.val) = .ok owner.toNat ∧
      (readUint second).map (·.val) = .ok spender.toNat
  | isApprovedForAll owner operator =>
    (readUint first).map (·.val) = .ok owner.toNat ∧
      (readUint second).map (·.val) = .ok operator.toNat

theorem readUint_toWord (a : Address) :
    (readUint a.toWord.bytes).map (·.val) = .ok a.toNat := by
  rw [readUint_word, Except.map, FixedBytes.val_toUint256, Address.toNat_toWord]

theorem exists_words (c : Call) : ∃ first second : Word,
    c.encode = c.selector ++ (first.bytes ++ second.bytes) ∧
      c.Holds first.bytes second.bytes := by
  cases c with
  | approve spender amount =>
    have number : readUint amount.toWord.bytes = .ok amount := by
      rw [readUint_word, Uint256.toUint256_toWord]
    exact ⟨spender.toWord, amount.toWord, by simp [encode, arguments], readUint_toWord _, number⟩
  | setApprovalForAll operator approved =>
    exact ⟨operator.toWord, boolWord approved, by simp [encode, arguments], readUint_toWord _,
      readBool_boolWord approved⟩
  | allowance owner spender =>
    exact ⟨owner.toWord, spender.toWord, by simp [encode, arguments], readUint_toWord _,
      readUint_toWord _⟩
  | isApprovedForAll owner operator =>
    exact ⟨owner.toWord, operator.toWord, by simp [encode, arguments], readUint_toWord _,
      readUint_toWord _⟩

theorem encode_injective : Function.Injective encode := by
  intro c d h
  rw [← Option.some.injEq, ← decode?_encode c, ← decode?_encode d, h]

/-- Calls and answers are unambiguous. Equal bytes are those of one call, with the same arguments; a
call is a selector of four bytes and two words, which give its arguments back when they are read as
answers are; and every answer, of any length, is read from its first word or fails for one of two
reasons. -/
theorem words_unambiguous :
    (∀ c d : Call, c.encode = d.encode ↔ c = d) ∧
    (∀ c : Call, c.selector.length = 4 ∧ c.encode.length = 4 + 64 ∧
      ∃ first second : Word, c.encode = c.selector ++ (first.bytes ++ second.bytes) ∧
        c.Holds first.bytes second.bytes) ∧
    ∀ returned : Bytes, ReadsFirstWord returned := by
  refine ⟨fun c d => encode_injective.eq_iff, fun c => ?_, readsFirstWord⟩
  have four : c.selector.length = 4 := by cases c <;> rfl
  obtain ⟨first, second, written, held⟩ := c.exists_words
  refine ⟨four, ?_, first, second, written, held⟩
  rw [written, List.length_append, List.length_append, four, first.length_eq, second.length_eq]

end Call

end VenueSigner
