import Mathlib.Data.List.Basic
import VenueSigner.Address
/-!
What numerals, hexadecimal texts and addresses are written as reads back: digits of either case
denote the byte they spell, and no blank, prefix or capital letter in a written text is lost on the
reader.
-/

namespace VenueSigner

theorem append_cons_inj {α : Type} {mark : α} {xs ys rest others : List α} (hx : mark ∉ xs)
    (hy : mark ∉ ys) (h : xs ++ mark :: rest = ys ++ mark :: others) : xs = ys ∧ rest = others := by
  induction xs generalizing ys with
  | nil =>
    cases ys with
    | nil => exact ⟨rfl, (List.cons.inj h).2⟩
    | cons y ys => exact absurd (List.cons.inj h).1 (List.ne_of_not_mem_cons hy)
  | cons x xs ih =>
    cases ys with
    | nil => exact absurd (List.cons.inj h).1.symm (List.ne_of_not_mem_cons hx)
    | cons y ys =>
      obtain ⟨rfl, later⟩ := List.cons.inj h
      obtain ⟨rfl, same⟩ := ih (List.not_mem_of_not_mem_cons hx) (List.not_mem_of_not_mem_cons hy)
        later
      exact ⟨rfl, same⟩

theorem utf8EncodeChar_of_ascii {c : Char} (h : c.toNat < 128) :
    String.utf8EncodeChar c = [UInt8.ofNat c.toNat] := by
  have small : c.val.toNat ≤ 127 := Nat.le_of_lt_succ h
  simp only [String.utf8EncodeChar, if_pos small]
  rfl

theorem flatMap_utf8EncodeChar {cs : List Char} (h : ∀ c ∈ cs, c.toNat < 128) :
    cs.flatMap String.utf8EncodeChar = cs.map fun c => UInt8.ofNat c.toNat := by
  induction cs with
  | nil => rfl
  | cons c rest ih =>
    have first := utf8EncodeChar_of_ascii (h c List.mem_cons_self)
    rw [List.flatMap_cons, first, ih fun d hd => h d (List.mem_cons_of_mem c hd)]
    rfl

theorem toNat_char_of_ascii {n : Nat} (h : n < 128) : (Char.ofNat n).toNat = n := by
  rw [Char.ofNat, dif_pos (.inl (by omega))]
  rfl

/-- Every other character has a byte beyond those of ASCII: the first one. -/
theorem ascii_of_utf8EncodeChar {c : Char}
    (h : ∀ x ∈ String.utf8EncodeChar c, x.toNat < 128) : c.toNat < 128 := by
  by_contra beyond
  have large : ¬ c.val.toNat ≤ 127 := fun small => beyond (Nat.lt_succ_of_le small)
  have first : ∃ x ∈ String.utf8EncodeChar c, 192 ≤ x.toNat := by
    simp only [String.utf8EncodeChar, if_neg large]
    split_ifs <;> exact ⟨_, List.mem_cons_self, by simp only [UInt8.toNat_ofNat']; omega⟩
  obtain ⟨x, member, high⟩ := first
  have low := h x member
  omega

theorem Digit.toChar_range (d : Digit) : 48 ≤ d.toChar.toNat ∧ d.toChar.toNat ≤ 57 := by
  revert d
  decide

theorem Digits.toChars_range {c : Char} {ds : List Digit} (h : c ∈ Digits.toChars ds) :
    48 ≤ c.toNat ∧ c.toNat ≤ 57 := by
  obtain ⟨d, _, rfl⟩ := List.mem_map.1 h
  exact d.toChar_range

theorem Digits.ofNat_ne_nil (n : Nat) : Digits.ofNat n ≠ [] := by
  rw [Digits.ofNat]
  split <;> simp

theorem Digits.ofChars?_toChars (ds : List Digit) :
    Digits.ofChars? (Digits.toChars ds) = some ds := by
  induction ds with
  | nil => rfl
  | cons d rest ih =>
    simp only [Digits.ofChars?, Digits.toChars, List.map_cons, List.mapM_cons] at ih ⊢
    rw [Digit.ofChar?_toChar, ih]
    rfl

theorem Digit.toChar_of_ofChar? {c : Char} {d : Digit} (h : Digit.ofChar? c = some d) :
    d.toChar = c := by
  unfold Digit.ofChar? at h
  split at h
  · next range =>
    obtain rfl := Option.some.inj h
    have whole : '0'.toNat + (c.toNat - '0'.toNat) = c.toNat := Nat.add_sub_cancel' range.1
    rw [Digit.toChar, whole, Char.ofNat_toNat]
  · contradiction

theorem Digits.ofChars?_eq_some_iff {s : List Char} {ds : List Digit} :
    Digits.ofChars? s = some ds ↔ s = Digits.toChars ds := by
  constructor
  · intro h
    induction s generalizing ds with
    | nil =>
      obtain rfl : [] = ds := Option.some.inj h
      rfl
    | cons c rest ih =>
      rw [Digits.ofChars?, List.mapM_cons] at h
      obtain ⟨d, first, h⟩ := Option.bind_eq_some_iff.1 h
      obtain ⟨more, others, h⟩ := Option.bind_eq_some_iff.1 h
      obtain rfl := Option.some.inj h
      rw [ih others, Digits.toChars, Digits.toChars, List.map_cons, Digit.toChar_of_ofChar? first]
  · rintro rfl
    exact Digits.ofChars?_toChars ds

theorem Digits.natural?_digits {ds : List Digit} (some : ds ≠ []) :
    Digits.natural? (Digits.toChars ds) = .some (Positional.value ds) := by
  have nonempty : (Digits.toChars ds).isEmpty = false := by
    rw [List.isEmpty_eq_false_iff, Digits.toChars, ne_eq, List.map_eq_nil_iff]
    exact some
  rw [Digits.natural?, nonempty, Digits.ofChars?_toChars]
  rfl

theorem Digits.natural?_eq_some_iff {s : List Char} {n : Nat} :
    Digits.natural? s = some n ↔
      ∃ ds, ds ≠ [] ∧ s = Digits.toChars ds ∧ Positional.value ds = n := by
  constructor
  · intro h
    unfold Digits.natural? at h
    split at h
    · contradiction
    · next nonempty =>
      obtain ⟨ds, read, rfl⟩ := Option.map_eq_some_iff.1 h
      obtain rfl := Digits.ofChars?_eq_some_iff.1 read
      refine ⟨ds, ?_, rfl, rfl⟩
      rintro rfl
      exact nonempty rfl
  · rintro ⟨ds, some, rfl, rfl⟩
    exact Digits.natural?_digits some

theorem Digits.natural?_toChars (n : Nat) :
    Digits.natural? (Digits.toChars (Digits.ofNat n)) = some n := by
  rw [Digits.natural?_digits (Digits.ofNat_ne_nil n), Digits.value_ofNat]

theorem Digits.text_injective {m n : Nat} (h : Digits.text m = Digits.text n) : m = n := by
  have chars : Digits.toChars (Digits.ofNat m) = Digits.toChars (Digits.ofNat n) :=
    String.ofList_injective h
  have read := congrArg Digits.natural? chars
  simpa only [Digits.natural?_toChars, Option.some.injEq] using read

theorem Blank.trimChars_of_forall {cs : List Char} (h : ∀ c ∈ cs, Blank.isBlank c = false) :
    Blank.trimChars cs = cs := by
  have keep (l : List Char) (hl : ∀ c ∈ l, Blank.isBlank c = false) :
      l.dropWhile Blank.isBlank = l := by
    cases l with
    | nil => rfl
    | cons c rest => rw [List.dropWhile_cons, hl c List.mem_cons_self]; rfl
  rw [Blank.trimChars, keep cs h, keep cs.reverse fun c hc => h c (List.mem_reverse.1 hc),
    List.reverse_reverse]

theorem Digits.not_isBlank {c : Char} (h : 48 ≤ c.toNat ∧ c.toNat ≤ 57) :
    Blank.isBlank c = false := by
  simp only [Blank.isBlank, Bool.or_eq_false_iff, Bool.and_eq_false_iff, decide_eq_false_iff_not,
    beq_eq_false_iff_ne]
  omega

theorem Digits.trim_digits (ds : List Digit) :
    Blank.trim (String.ofList (Digits.toChars ds)) = String.ofList (Digits.toChars ds) := by
  rw [Blank.trim, String.toList_ofList, Blank.trimChars_of_forall]
  exact fun c hc => Digits.not_isBlank (Digits.toChars_range hc)

theorem Digits.not_isMarked (ds : List Digit) :
    Hex.isMarked (String.ofList (Digits.toChars ds)) = false := by
  have notMark : 'x' ∉ Digits.toChars ds ∧ 'X' ∉ Digits.toChars ds :=
    ⟨fun h => absurd (Digits.toChars_range h) (by decide),
      fun h => absurd (Digits.toChars_range h) (by decide)⟩
  unfold Hex.isMarked
  rw [String.toList_ofList]
  split
  · next rest h => simp [h] at notMark
  · next rest h => simp [h] at notMark
  · rfl

theorem Uint256.toOption_parse_digits {ds : List Digit} (some : ds ≠ []) :
    (Uint256.parse (String.ofList (Digits.toChars ds))).toOption =
      Uint.ofNat? 256 (Positional.value ds) := by
  simp only [Uint256.parse, Digits.trim_digits, Digits.not_isMarked, String.toList_ofList,
    Digits.natural?_digits some]
  cases Uint.ofNat? 256 (Positional.value ds) <;> rfl

theorem Uint256.parse_text {n : Nat} (h : n < 2 ^ 256) :
    Uint256.parse (Digits.text n) = .ok ⟨n, h⟩ := by
  have read := Uint256.toOption_parse_digits (Digits.ofNat_ne_nil n)
  rw [Digits.value_ofNat, Uint.ofNat?_of_lt h] at read
  exact Result.eq_ok_of_toOption read

theorem Digits.signedNatural?_toChars (n : Nat) :
    Digits.signedNatural? (Digits.toChars (Digits.ofNat n)) = some n := by
  rw [Digits.signedNatural?.eq_2, Digits.natural?_toChars]
  rintro rest signed
  have first : '+' ∈ Digits.toChars (Digits.ofNat n) := signed ▸ List.mem_cons_self
  exact absurd (Digits.toChars_range first) (by decide)

theorem Digits.signedNatural?_eq_some_iff {s : List Char} {n : Nat} :
    Digits.signedNatural? s = some n ↔ ∃ sign ds, sign ∈ [[], ['+']] ∧ ds ≠ [] ∧
      s = sign ++ Digits.toChars ds ∧ Positional.value ds = n := by
  have unsigned {s : List Char} (h : ∀ rest, s ≠ '+' :: rest) :
      Digits.signedNatural? s = Digits.natural? s :=
    Digits.signedNatural?.eq_2 s fun rest same => h rest same
  constructor
  · intro h
    by_cases signed : ∃ rest, s = '+' :: rest
    · obtain ⟨rest, rfl⟩ := signed
      obtain ⟨ds, some, rfl, denotes⟩ := Digits.natural?_eq_some_iff.1 h
      exact ⟨['+'], ds, by simp, some, rfl, denotes⟩
    · rw [unsigned fun rest same => signed ⟨rest, same⟩] at h
      obtain ⟨ds, some, rfl, denotes⟩ := Digits.natural?_eq_some_iff.1 h
      exact ⟨[], ds, by simp, some, rfl, denotes⟩
  · rintro ⟨sign, ds, known, some, rfl, rfl⟩
    have digits := Digits.natural?_digits some
    obtain rfl | rfl : sign = [] ∨ sign = ['+'] := by simpa using known
    · rw [List.nil_append, unsigned, digits]
      rintro rest signed
      have first : '+' ∈ Digits.toChars ds := signed ▸ List.mem_cons_self
      exact absurd (Digits.toChars_range first) (by decide)
    · exact digits

def Hex.Spells (c : Char) (n : Fin 16) : Prop :=
  c = Hex.digitChar n ∨ c = (Hex.digitChar n).toUpper

theorem Hex.Spells.ascii {c : Char} {n : Fin 16} (h : Hex.Spells c n) : c.toNat < 128 := by
  have all : ∀ n : Fin 16,
      (Hex.digitChar n).toNat < 128 ∧ (Hex.digitChar n).toUpper.toNat < 128 := by
    decide
  obtain rfl | rfl := h
  · exact (all n).1
  · exact (all n).2

theorem Hex.Spells.digitValue? {c : Char} {n : Fin 16} (h : Hex.Spells c n) :
    Hex.digitValue? (UInt8.ofNat c.toNat) = some n.val := by
  have all : ∀ n : Fin 16,
      Hex.digitValue? (UInt8.ofNat (Hex.digitChar n).toNat) = some n.val ∧
        Hex.digitValue? (UInt8.ofNat (Hex.digitChar n).toUpper.toNat) = some n.val := by
    decide
  obtain rfl | rfl := h
  · exact (all n).1
  · exact (all n).2

/-- The characters spell the bytes, two for each. -/
inductive Hex.SpellsAll : List Char → Bytes → Prop
  | nil : Hex.SpellsAll [] []
  | cons {c d : Char} {b : UInt8} {cs : List Char} {bs : Bytes}
      (high : Hex.Spells c (Fin.ofNat 16 (b.toNat / 16)))
      (low : Hex.Spells d (Fin.ofNat 16 b.toNat))
      (rest : Hex.SpellsAll cs bs) : Hex.SpellsAll (c :: d :: cs) (b :: bs)

theorem Hex.SpellsAll.ascii {cs : List Char} {bs : Bytes} (h : Hex.SpellsAll cs bs) :
    ∀ c ∈ cs, c.toNat < 128 := by
  induction h with
  | nil => simp
  | cons high low rest ih =>
    intro c hc
    obtain rfl | hc := List.mem_cons.1 hc
    · exact high.ascii
    · obtain rfl | hc := List.mem_cons.1 hc
      · exact low.ascii
      · exact ih c hc

theorem Hex.SpellsAll.length_even {cs : List Char} {bs : Bytes} (h : Hex.SpellsAll cs bs) :
    cs.length % 2 = 0 := by
  induction h with
  | nil => rfl
  | cons high low rest ih =>
    simp only [List.length_cons]
    omega

theorem Hex.SpellsAll.decodePairs {cs : List Char} {bs : Bytes} (h : Hex.SpellsAll cs bs)
    (position : Nat) :
    Hex.decodePairs position (cs.map fun c => UInt8.ofNat c.toNat) = .ok bs := by
  induction h generalizing position with
  | nil => rfl
  | @cons c d b cs bs high low rest ih =>
    have byte : UInt8.ofNat (b.toNat / 16 % 16 * 16 + b.toNat % 16) = b := by
      have small : b.toNat < 256 := b.toNat_lt
      have whole : b.toNat / 16 % 16 * 16 + b.toNat % 16 = b.toNat := by omega
      rw [whole, UInt8.ofNat_toNat]
    simp only [List.map_cons, Hex.decodePairs, Hex.digitAt, high.digitValue?, low.digitValue?, ih]
    exact congrArg (fun x => Except.ok (x :: bs)) byte

theorem Hex.SpellsAll.ofText_dropMark {cs : List Char} {bs : Bytes} (h : Hex.SpellsAll cs bs) :
    Bytes.ofText (Hex.dropMark (String.ofList ('0' :: 'x' :: cs))) =
      cs.map fun c => UInt8.ofNat c.toNat := by
  rw [Hex.dropMark, String.toList_ofList, Hex.dropMarkChars, Bytes.ofText, String.toList_ofList,
    flatMap_utf8EncodeChar h.ascii]

theorem Hex.SpellsAll.decode {cs : List Char} {bs : Bytes} (h : Hex.SpellsAll cs bs) :
    Hex.decode (String.ofList ('0' :: 'x' :: cs)) = .ok bs := by
  have even : (cs.map fun c => UInt8.ofNat c.toNat).length % 2 ≠ 1 := by
    rw [List.length_map, h.length_even]
    decide
  rw [Hex.decode, h.ofText_dropMark, Hex.decodeDigits, if_neg even, h.decodePairs]

theorem Hex.spellsAll_encodeChars (b : Bytes) : Hex.SpellsAll (Hex.encodeChars b) b := by
  induction b with
  | nil => exact .nil
  | cons x rest ih => exact .cons (.inl rfl) (.inl rfl) ih

theorem Hex.decode_encodePrefixed (b : Bytes) : Hex.decode (Hex.encodePrefixed b) = .ok b :=
  (Hex.spellsAll_encodeChars b).decode

theorem Hex.encodePrefixed_injective {a b : Bytes}
    (h : Hex.encodePrefixed a = Hex.encodePrefixed b) : a = b :=
  Except.ok.inj (by rw [← Hex.decode_encodePrefixed a, ← Hex.decode_encodePrefixed b, h])

theorem Address.spells_checkedDigit (n : Fin 16) (nibble : Nat) :
    Hex.Spells (Address.checkedDigit (Hex.digitChar n) nibble) n := by
  unfold Address.checkedDigit
  split
  · exact .inr rfl
  · exact .inl rfl

theorem Address.spellsAll_zipWith (b : Bytes) (nibbles : List Nat)
    (enough : 2 * b.length ≤ nibbles.length) :
    Hex.SpellsAll (List.zipWith Address.checkedDigit (Hex.encodeChars b) nibbles) b := by
  induction b generalizing nibbles with
  | nil => exact .nil
  | cons x rest ih =>
    match nibbles with
    | [] | [_] =>
      simp only [List.length_cons, List.length_nil] at enough
      omega
    | i :: j :: more =>
      exact .cons (Address.spells_checkedDigit _ i) (Address.spells_checkedDigit _ j)
        (ih more (by simp only [List.length_cons] at enough; omega))

theorem Address.length_nibbles (b : Bytes) : (Address.nibbles b).length = 2 * b.length := by
  induction b with
  | nil => rfl
  | cons x rest ih =>
    simp only [Address.nibbles, List.flatMap_cons, List.length_append, List.length_cons,
      List.length_nil] at ih ⊢
    omega

theorem Address.spellsAll_checksum (a : Address) :
    Hex.SpellsAll (List.zipWith Address.checkedDigit (Hex.encodeChars a.bytes)
      (Address.nibbles (Keccak.digestText (Hex.encode a.bytes)).bytes)) a.bytes :=
  Address.spellsAll_zipWith a.bytes _
    (by rw [Address.length_nibbles, FixedBytes.length_eq, FixedBytes.length_eq]; decide)

/-- An address written with its checksum is read back. -/
theorem Address.parse_checksum (a : Address) : Address.parse a.checksum = .ok a := by
  have decoded : Hex.decode a.checksum = .ok a.bytes := (Address.spellsAll_checksum a).decode
  rw [Address.parse, decoded]
  simp only [Address.ofBytes, FixedBytes.ofBytes?_bytes]

theorem Address.parse_lowercase (a : Address) : Address.parse a.lowercase = .ok a := by
  rw [Address.parse, Address.lowercase, Hex.decode_encodePrefixed]
  simp only [Address.ofBytes, FixedBytes.ofBytes?_bytes]

end VenueSigner
