import VenueSigner.Proofs.HexText
/-!
Texts of numbers without sign. A number is read from a numeral to the base ten, or behind a mark to
the base sixteen, however many zeros are in front, if it has at most 256 bits. The error tells what
else is wrong: too large a number, a character among hexadecimal digits that is none, or no numeral
at all.
-/

namespace VenueSigner

/-- The characters are a numeral of the number, to the base ten or behind a mark to the base
sixteen, where a digit that is lacking for a whole byte is a zero in front. -/
inductive NaturalText : List Char → Nat → Prop
  | decimal {ds : List Digit} (some : ds ≠ []) :
      NaturalText (Digits.toChars ds) (Positional.value ds)
  | hex {mark : Char} {zero cs : List Char} {bs : Bytes} (known : mark ∈ ['x', 'X'])
      (few : zero ∈ [[], ['0']]) (digits : Hex.SpellsAll (zero ++ cs) bs) :
      NaturalText ('0' :: mark :: cs) bs.toNat

theorem naturalText_iff {cs : List Char} {n : Nat} :
    NaturalText cs n ↔ (∃ ds, ds ≠ [] ∧ cs = Digits.toChars ds ∧ Positional.value ds = n) ∨
      ∃ mark ∈ ['x', 'X'], ∃ rest ds, cs = '0' :: mark :: rest ∧
        List.Forall₂ Hex.Spells rest ds ∧ Positional.value ds = n := by
  constructor
  · intro h
    cases h with
    | decimal some => exact .inl ⟨_, some, rfl, rfl⟩
    | @hex mark zero rest bs known few digits =>
      obtain ⟨ds, spelled, same⟩ := Hex.spellsAll_iff_whole.1 ⟨zero, few, digits⟩
      exact .inr ⟨mark, known, rest, ds, rfl, spelled, (Hex.toNat_of_digits_eq same).symm⟩
  · rintro (⟨ds, some, rfl, rfl⟩ | ⟨mark, known, rest, ds, rfl, spelled, rfl⟩)
    · exact .decimal some
    · obtain ⟨bs, same⟩ := Hex.exists_digits_eq_whole ds
      obtain ⟨zero, few, digits⟩ := Hex.spellsAll_iff_whole.2 ⟨ds, spelled, same⟩
      rw [← Hex.toNat_of_digits_eq same]
      exact .hex known few digits

theorem Hex.isMarked_iff {s : String} :
    isMarked s = true ↔ ∃ mark ∈ ['x', 'X'], ∃ cs, s.toList = '0' :: mark :: cs := by
  simp only [List.mem_pair, exists_eq_or_imp, exists_eq_left]
  unfold isMarked
  split
  · next cs chars => simp [chars]
  · next cs chars => simp [chars]
  · next lower upper =>
    simp only [Bool.false_eq_true, false_iff, not_or, not_exists]
    exact ⟨lower, upper⟩

theorem Hex.dropMark_of_marked {s : String} {mark : Char} {cs : List Char}
    (known : mark ∈ ['x', 'X']) (h : s.toList = '0' :: mark :: cs) : (dropMark s).toList = cs := by
  rw [dropMark, String.toList_ofList, h]
  obtain rfl | rfl := List.mem_pair.1 known
  · rfl
  · rfl

namespace Uint256

def numeral? (t : String) : Option Nat :=
  if Hex.isMarked t then (Hex.decode t).toOption.map Bytes.toNat else Digits.natural? t.toList

theorem numeral?_of_marked {t : String} {mark : Char} {cs : List Char} {n : Nat}
    (known : mark ∈ ['x', 'X']) (h : t.toList = '0' :: mark :: cs) :
    numeral? t = some n ↔ ∃ ds, List.Forall₂ Hex.Spells cs ds ∧ Positional.value ds = n := by
  have behind : (Hex.dropMark t).toList = cs := Hex.dropMark_of_marked known h
  rw [numeral?, if_pos (Hex.isMarked_iff.2 ⟨mark, known, cs, h⟩)]
  constructor
  · intro read
    cases decoded : Hex.decode t with
    | error bad =>
      rw [decoded] at read
      contradiction
    | ok b =>
      rw [decoded] at read
      obtain rfl : b.toNat = n := Option.some.inj read
      obtain ⟨ds, writes, same⟩ := Hex.decode_eq_ok_iff.1 decoded
      rw [Hex.writes_iff, behind] at writes
      exact ⟨ds, writes, (Hex.toNat_of_digits_eq same).symm⟩
  · rintro ⟨ds, spelled, rfl⟩
    rw [← behind, ← Hex.writes_iff] at spelled
    obtain ⟨b, decoded, same⟩ := Hex.exists_decode spelled
    rw [decoded, ← Hex.toNat_of_digits_eq same]
    rfl

theorem numeral?_eq_some_iff {t : String} {n : Nat} :
    numeral? t = some n ↔ NaturalText t.toList n := by
  rw [naturalText_iff]
  by_cases marked : Hex.isMarked t
  · obtain ⟨mark, known, cs, chars⟩ := Hex.isMarked_iff.1 marked
    rw [numeral?_of_marked known chars]
    constructor
    · rintro ⟨ds, spelled, number⟩
      exact .inr ⟨mark, known, cs, ds, chars, spelled, number⟩
    · rintro (⟨ds, _, digits, _⟩ | ⟨_, _, rest, ds, same, spelled, number⟩)
      · have unmarked := Digits.not_isMarked ds
        rw [← digits, String.ofList_toList, marked] at unmarked
        contradiction
      · obtain rfl : cs = rest := by
          rw [chars] at same
          exact (List.cons.inj (List.cons.inj same).2).2
        exact ⟨ds, spelled, number⟩
  · rw [numeral?, if_neg marked, Digits.natural?_eq_some_iff, or_iff_left]
    rintro ⟨mark, known, rest, ds, chars, _⟩
    exact marked (Hex.isMarked_iff.2 ⟨mark, known, rest, chars⟩)

/-- The characters behind the mark are not all of them digits. -/
def Garbled (cs : List Char) : Prop :=
  ∃ mark ∈ ['x', 'X'], ∃ rest, cs = '0' :: mark :: rest ∧ ∃ c ∈ rest, ¬ Hex.IsDigit c

theorem garbled_iff {t : String} :
    Garbled t.toList ↔ Hex.isMarked t = true ∧ numeral? t = none := by
  constructor
  · rintro ⟨mark, known, rest, chars, c, member, noDigit⟩
    refine ⟨Hex.isMarked_iff.2 ⟨mark, known, rest, chars⟩, ?_⟩
    rw [Option.eq_none_iff_forall_ne_some]
    intro n read
    obtain ⟨ds, spelled, _⟩ := (numeral?_of_marked known chars).1 read
    exact noDigit (Hex.forall_isDigit_iff.2 ⟨ds, spelled⟩ c member)
  · rintro ⟨marked, none⟩
    obtain ⟨mark, known, rest, chars⟩ := Hex.isMarked_iff.1 marked
    refine ⟨mark, known, rest, chars, ?_⟩
    by_contra! digits
    obtain ⟨ds, spelled⟩ := Hex.forall_isDigit_iff.1 digits
    have read := (numeral?_of_marked known chars).2 ⟨ds, spelled, rfl⟩
    rw [none] at read
    contradiction

/-- What reading a number from a text ends in. -/
inductive Outcome (s : String) : Result Uint256 → Prop
  | fits {n : Nat} (read : numeral? (Blank.trim s) = some n) (small : n < 2 ^ 256) :
      Outcome s (.ok ⟨n, small⟩)
  | large {n : Nat} (read : numeral? (Blank.trim s) = some n) (le : 2 ^ 256 ≤ n) :
      Outcome s (.error (.exceedsWord (Blank.trim s)))
  | garbled (bad : Hex.BadDigit) (marked : Hex.isMarked (Blank.trim s) = true)
      (read : numeral? (Blank.trim s) = none) : Outcome s (.error (.notHex bad))
  | noNumeral (unmarked : Hex.isMarked (Blank.trim s) = false)
      (read : numeral? (Blank.trim s) = none) : Outcome s (.error (.notDecimal s))

theorem outcome_of_numeral {s : String} {n : Nat} (read : numeral? (Blank.trim s) = some n) :
    Outcome s (match Uint.ofNat? 256 n with
      | some u => .ok u
      | none => .error (.exceedsWord (Blank.trim s))) := by
  by_cases small : n < 2 ^ 256
  · rw [Uint.ofNat?_of_lt small]
    exact .fits read small
  · rw [Uint.ofNat?, dif_neg small]
    exact .large read (Nat.le_of_not_lt small)

theorem parse_outcome (s : String) : Outcome s (Uint256.parse s) := by
  rw [Uint256.parse]
  cases marked : Hex.isMarked (Blank.trim s) with
  | true =>
    rw [if_pos rfl, parseHex, Hex.parse]
    cases decoded : Hex.decode (Blank.trim s) with
    | error bad => exact .garbled bad marked (by rw [numeral?, if_pos marked, decoded]; rfl)
    | ok b => exact outcome_of_numeral (by rw [numeral?, if_pos marked, decoded]; rfl)
  | false =>
    have plain : numeral? (Blank.trim s) = Digits.natural? (Blank.trim s).toList :=
      if_neg (by rw [marked]; decide)
    rw [if_neg (by decide)]
    cases digits : Digits.natural? (Blank.trim s).toList with
    | none => exact .noNumeral marked (plain.trans digits)
    | some n => exact outcome_of_numeral (plain.trans digits)

theorem toOption_parse (s : String) :
    (Uint256.parse s).toOption = (numeral? (Blank.trim s)).bind (Uint.ofNat? 256) := by
  have outcome := parse_outcome s
  generalize Uint256.parse s = r at outcome
  cases outcome with
  | fits read small => rw [read, Option.bind_some, Uint.ofNat?_of_lt small]; rfl
  | large read le => rw [read, Option.bind_some, Uint.ofNat?_eq_none_iff.2 le]; rfl
  | garbled bad marked read => rw [read]; rfl
  | noNumeral unmarked read => rw [read]; rfl

theorem parse_of_naturalText {s : String} {n : Nat} (h : NaturalText (Blank.trim s).toList n)
    (small : n < 2 ^ 256) : Uint256.parse s = .ok ⟨n, small⟩ := by
  apply Result.eq_ok_of_toOption
  rw [toOption_parse, numeral?_eq_some_iff.2 h, Option.bind_some, Uint.ofNat?_of_lt small]

end Uint256

theorem Hex.Spells.not_isBlank {c : Char} {d : Fin 16} (h : Hex.Spells c d) :
    Blank.isBlank c = false := by
  have all : ∀ d : Fin 16, Blank.isBlank (Hex.digitChar d) = false ∧
      Blank.isBlank (Hex.digitChar d).toUpper = false := by decide
  obtain rfl | rfl := h
  · exact (all d).1
  · exact (all d).2

theorem Hex.not_isBlank_of_spelled {cs : List Char} {ds : List (Fin 16)}
    (h : List.Forall₂ Hex.Spells cs ds) : ∀ c ∈ cs, Blank.isBlank c = false := by
  induction h with
  | nil => simp
  | cons spells _ ih => exact List.forall_mem_cons.2 ⟨spells.not_isBlank, ih⟩

theorem Hex.spelled_zeros {cs : List Char} {ds : List (Fin 16)}
    (h : List.Forall₂ Hex.Spells cs ds) (k : Nat) :
    List.Forall₂ Hex.Spells (List.replicate k '0' ++ cs) (List.replicate k 0 ++ ds) := by
  induction k with
  | zero => exact h
  | succ k ih => exact .cons (.inl rfl) ih

theorem Radix.spells_hexChar {n : Nat} (h : n < 16) :
    Hex.Spells (Radix.hexChar n) (Fin.ofNat 16 n) := by
  have all : ∀ n < 16, Radix.hexChar n = Hex.digitChar (Fin.ofNat 16 n) := by decide
  exact .inl (all n h)

theorem Radix.exists_digits (n : Nat) :
    ∃ ds, List.Forall₂ Hex.Spells (Radix.hexChars n) ds ∧ Positional.value ds = n := by
  induction n using Nat.strongRecOn with
  | ind n ih =>
    rw [Radix.hexChars]
    split
    · next one =>
      refine ⟨[Fin.ofNat 16 n], .cons (Radix.spells_hexChar one) .nil, ?_⟩
      simp [Positional.value, Nat.mod_eq_of_lt one]
    · next more =>
      obtain ⟨ds, spelled, number⟩ := ih (n / 16) (by omega)
      have last := Radix.spells_hexChar (Nat.mod_lt n (by decide : 16 > 0))
      refine ⟨ds ++ [Fin.ofNat 16 (n % 16)], ?_, ?_⟩
      · exact List.rel_append spelled (.cons last .nil)
      · rw [Positional.value_concat, number]
        simp only [Fin.ofNat]
        omega

namespace Uint256

theorem parse_zeros_digits (u : Uint256) (zeros : Nat) :
    Uint256.parse (String.ofList (List.replicate zeros '0' ++ u.text.toList)) = .ok u := by
  have chars : List.replicate zeros '0' ++ u.text.toList =
      Digits.toChars (List.replicate zeros 0 ++ Digits.ofNat u.val) := by
    rw [text, Digits.text, String.toList_ofList, Digits.toChars, Digits.toChars, List.map_append,
      List.map_replicate]
    rfl
  have some : List.replicate zeros 0 ++ Digits.ofNat u.val ≠ [] :=
    List.append_ne_nil_of_right_ne_nil _ (Digits.ofNat_ne_nil u.val)
  have number : Positional.value (List.replicate zeros 0 ++ Digits.ofNat u.val) = u.val := by
    rw [Positional.value_zeros, Digits.value_ofNat]
  have numeral := NaturalText.decimal some
  rw [number] at numeral
  rw [chars]
  refine parse_of_naturalText ?_ u.val_lt
  rwa [Digits.trim_digits, String.toList_ofList]

theorem parse_zeros_hexChars (u : Uint256) (zeros : Nat) :
    Uint256.parse (String.ofList ('0' :: 'x' :: (List.replicate zeros '0' ++
      Radix.hexChars u.val))) = .ok u := by
  obtain ⟨ds, spelled, number⟩ := Radix.exists_digits u.val
  have padded := Hex.spelled_zeros spelled zeros
  have noBlank : ∀ c ∈ '0' :: 'x' :: (List.replicate zeros '0' ++ Radix.hexChars u.val),
      Blank.isBlank c = false := by
    rw [List.forall_mem_cons, List.forall_mem_cons]
    exact ⟨by decide, by decide, Hex.not_isBlank_of_spelled padded⟩
  refine parse_of_naturalText ?_ u.val_lt
  rw [Blank.trim, String.toList_ofList, String.toList_ofList, Blank.trimChars_of_forall noBlank,
    naturalText_iff]
  exact .inr ⟨'x', by simp, _, _, rfl, padded, by rw [Positional.value_zeros, number]⟩

/-- How a number is read from a text: blanks at the ends do not count, what stands between them is a
numeral to the base ten or behind a mark to the base sixteen, and its number has at most 256 bits. A
larger number, a character behind the mark that is no digit, and everything else have errors of
their own. A number is read from its numerals, however many zeros stand in front. -/
theorem parse_numerals :
    (∀ s : String, let t := (Blank.trim s).toList
      (∀ n, NaturalText t n ↔ (∃ ds, ds ≠ [] ∧ t = Digits.toChars ds ∧ Positional.value ds = n) ∨
        ∃ mark ∈ ['x', 'X'], ∃ rest ds, t = '0' :: mark :: rest ∧
          List.Forall₂ Hex.Spells rest ds ∧ Positional.value ds = n) ∧
      (∀ n, (∃ u : Uint256, Uint256.parse s = .ok u ∧ u.val = n) ↔
        NaturalText t n ∧ n < 2 ^ 256) ∧
      ((∃ e, Uint256.parse s = .error e ∧ e.kind = .numericOverflow) ↔
        ∃ n, NaturalText t n ∧ 2 ^ 256 ≤ n) ∧
      ((∃ e, Uint256.parse s = .error e ∧ e.kind = .invalidHex) ↔ Garbled t) ∧
      ((∃ e, Uint256.parse s = .error e ∧ e.kind = .invalidValue) ↔
        ¬ Garbled t ∧ ∀ n, ¬ NaturalText t n)) ∧
    ∀ u : Uint256, Uint256.parse u.text = .ok u ∧ ∀ zeros,
      Uint256.parse (String.ofList (List.replicate zeros '0' ++ u.text.toList)) = .ok u ∧
      Uint256.parse (String.ofList ('0' :: 'x' :: (List.replicate zeros '0' ++
        Radix.hexChars u.val))) = .ok u := by
  refine ⟨?_, fun u => ⟨?_, fun zeros =>
    ⟨parse_zeros_digits u zeros, parse_zeros_hexChars u zeros⟩⟩⟩
  · intro s t
    refine ⟨fun n => naturalText_iff, ?_⟩
    have outcome := parse_outcome s
    generalize Uint256.parse s = r at outcome
    simp only [t, garbled_iff, ← numeral?_eq_some_iff]
    cases outcome with
    | fits read small => simpa [read] using small
    | large read le => simpa [read, Error.kind] using le
    | garbled bad marked read => simp [read, marked, Error.kind]
    | noNumeral unmarked read => simp [read, unmarked, Error.kind]
  · have read := parse_zeros_digits u 0
    rwa [List.replicate_zero, List.nil_append, String.ofList_toList] at read

end Uint256

end VenueSigner
