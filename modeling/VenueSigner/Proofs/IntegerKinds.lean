import VenueSigner.Proofs.MessageCommitment
import VenueSigner.Proofs.NumberText
/-!
Kinds of integers. A kind of some width takes exactly the integers that fit it, whether they are
given as JSON numbers or as numerals, and the word says the integer that was given. Of JSON numbers
it takes none but whole ones of 64 bits, so that nothing is rounded before it is signed.
-/

namespace VenueSigner

def FixedBytes.toInt (w : Word) : Int :=
  (BitVec.ofNat 256 w.toNat).toInt

namespace TypedData

open Json (Literal Number Value)

/-- What stands behind `uint` or `int`, and how many bits it stands for. -/
inductive Width : String → Nat → Prop
  | bare : Width "" 256
  | bits {n : Nat} (pos : 0 < n) (le : n ≤ 256) (bytes : n % 8 = 0) : Width (Digits.text n) n

/-- The value is an integer, as a JSON number of 64 bits or as a numeral. -/
inductive Gives : Value → Int → Prop
  | number {x : Int} (low : -2 ^ 63 ≤ x) (high : x < 2 ^ 64) : Gives (.number (.int x)) x
  | numeral {ds : List Digit} (some : ds ≠ []) :
      Gives (.text (String.ofList (Digits.toChars ds))) (Positional.value ds)

inductive GivesSigned : Value → Int → Prop
  | unsigned {v : Value} {x : Int} (h : Gives v x) : GivesSigned v x
  | minus {ds : List Digit} (some : ds ≠ []) :
      GivesSigned (.text (String.ofList ('-' :: Digits.toChars ds))) (-(Positional.value ds))

/-- A kind takes exactly the integers of a range, each for the word that is read as that integer. It
takes no binary number, and no number unless it is written as a whole number of 64 bits. -/
structure Exact (s : Schema) (kind : String) (gives : Value → Int → Prop) (range : Int → Prop)
    (read : Word → Int) : Prop where
  accepts : ∀ v x, gives v x → ((∃ w, s.encodeValue kind v = .ok w) ↔ range x)
  denotes : ∀ v x w, gives v x → s.encodeValue kind v = .ok w → read w = x
  binary : ∀ x w, s.encodeValue kind (.number (.binary x)) ≠ .ok w
  written : ∀ l n w, Number.ofLiteral? l = some n → s.encodeValue kind (.number n) = .ok w →
    l.Whole64 ∧ read w = l.integer

theorem Kind.ofName?_of_head {name : String} {c : Char} {rest : List Char}
    (h : name.toList = c :: rest) (other : c ≠ 's' ∧ c ≠ 'b' ∧ c ≠ 'a') :
    ofName? name = sizedOfChars? name.toList := by
  obtain ⟨notText, notBytes, notAddress⟩ := other
  have first {d : Char} (word : name.toList.head? = some d) : d = c := by
    rw [h] at word
    exact (Option.some.inj word).symm
  unfold ofName?
  split
  · exact absurd (first (d := 's') rfl).symm notText
  · exact absurd (first (d := 'b') rfl).symm notBytes
  · exact absurd (first (d := 'a') rfl).symm notAddress
  · exact absurd (first (d := 'b') rfl).symm notBytes
  · rfl

theorem Kind.ofName?_uint (width : String) :
    ofName? ("uint" ++ width) = (width? width.toList).map uint := by
  have chars : ("uint" ++ width).toList = ['u', 'i', 'n', 't'] ++ width.toList :=
    String.toList_append
  rw [ofName?_of_head chars (by decide), chars]
  rfl

theorem Kind.ofName?_int (width : String) :
    ofName? ("int" ++ width) = (width? width.toList).map int := by
  have chars : ("int" ++ width).toList = ['i', 'n', 't'] ++ width.toList :=
    String.toList_append
  rw [ofName?_of_head chars (by decide), chars]
  rfl

namespace Width

variable {width : String} {bits : Nat}

theorem width?_eq (h : Width width bits) : Kind.width? width.toList = some bits := by
  cases h with
  | bare => rfl
  | bits pos le bytes =>
    rw [Digits.text, String.toList_ofList, Kind.width?.eq_2, Digits.signedNatural?_toChars,
      Option.filter_some]
    · simp [pos, le, bytes]
    · simp [Digits.toChars, Digits.ofNat_ne_nil]

theorem range (h : Width width bits) : 0 < bits ∧ bits ≤ 256 := by
  cases h with
  | bare => decide
  | bits pos le _ => exact ⟨pos, le⟩

theorem digit_of_mem (h : Width width bits) {c : Char} (member : c ∈ width.toList) :
    48 ≤ c.toNat ∧ c.toNat ≤ 57 := by
  cases h with
  | bare => simp at member
  | bits _ _ _ =>
    rw [Digits.text, String.toList_ofList] at member
    exact Digits.toChars_range member

theorem getLast?_ne (h : Width width bits) {letters : List Char} (plain : ']' ∉ letters) :
    (letters ++ width.toList).getLast? ≠ some ']' := by
  intro last
  obtain inLetters | inWidth := List.mem_append.1 (List.mem_of_getLast? last)
  · exact plain inLetters
  · exact absurd (h.digit_of_mem inWidth) (by decide)

theorem names_uint (h : Width width bits) : Kind.Names ("uint" ++ width) (.uint bits) := by
  refine ⟨?_, ?_⟩
  · rw [String.toList_append]
    exact h.getLast?_ne (by decide)
  · rw [Kind.ofName?_uint, h.width?_eq, Option.map_some]

theorem names_int (h : Width width bits) : Kind.Names ("int" ++ width) (.int bits) := by
  refine ⟨?_, ?_⟩
  · rw [String.toList_append]
    exact h.getLast?_ne (by decide)
  · rw [Kind.ofName?_int, h.width?_eq, Option.map_some]

end Width

namespace Gives

variable {v : Value} {x : Int}

theorem natural?_eq (h : Gives v x) :
    Kind.natural? v = if 0 ≤ x ∧ x < 2 ^ 256 then some x.toNat else none := by
  cases h with
  | number low high =>
    cases x with
    | ofNat n =>
      have fits : 0 ≤ Int.ofNat n ∧ Int.ofNat n < 2 ^ 256 := by
        rw [Int.ofNat_eq_natCast] at high ⊢
        omega
      rw [if_pos fits]
      rfl
    | negSucc n =>
      have negative : ¬ (0 ≤ Int.negSucc n ∧ Int.negSucc n < 2 ^ 256) := by omega
      rw [if_neg negative]
      rfl
  | @numeral ds nonempty =>
    rw [Kind.natural?, Uint256.toOption_parse_digits nonempty, Uint.ofNat?]
    by_cases fits : Positional.value ds < 2 ^ 256
    · rw [dif_pos fits, if_pos (by omega)]
      rfl
    · rw [dif_neg fits, if_neg (by omega)]
      rfl

theorem integer?_eq (h : Gives v x) : Kind.integer? v = some x := by
  cases h with
  | number _ _ => rfl
  | @numeral ds _ =>
    rw [Kind.integer?, Digits.trim_digits, String.toList_ofList, Kind.looseInteger?_digits]

end Gives

theorem GivesSigned.integer?_eq {v : Value} {x : Int} (h : GivesSigned v x) :
    Kind.integer? v = some x := by
  cases h with
  | unsigned h => exact h.integer?_eq
  | @minus ds _ =>
    have noBlank : ∀ c ∈ '-' :: Digits.toChars ds, Blank.isBlank c = false := by
      intro c member
      obtain rfl | digit := List.mem_cons.1 member
      · decide
      · exact Digits.not_isBlank (Digits.toChars_range digit)
    rw [Kind.integer?, Blank.trim, String.toList_ofList, String.toList_ofList,
      Blank.trimChars_of_forall noBlank, Kind.looseInteger?_minus]

namespace Kind

theorem toNat_intWord {n : Nat} (h : n < 2 ^ 256) : (intWord n).toNat = n := by
  rw [intWord_natCast h, FixedBytes.toNat_ofNat h]

theorem toInt_intWord {n : Int} (low : -2 ^ 255 ≤ n) (high : n < 2 ^ 255) :
    (intWord n).toInt = n := by
  have bound : (n % 2 ^ 256).toNat < 2 ^ 256 := by omega
  have cast : ((n % 2 ^ 256).toNat : Int) = n % 2 ^ 256 := by omega
  have wrapped : (BitVec.ofNat 256 (n % 2 ^ 256).toNat).toInt = (n % 2 ^ 256).bmod (2 ^ 256) := by
    rw [BitVec.toInt_ofNat', cast]
  rw [FixedBytes.toInt, intWord, FixedBytes.toNat_ofNat bound, wrapped]
  rw [Int.bmod_def]
  split <;> omega

end Kind

section Atoms

variable {s : Schema} {kind : String} {bits : Nat} {v : Value} {w : Word}

theorem encodeValue_eq_ok_iff {k : Kind} (named : Kind.Names kind k)
    (notStruct : s.has kind = false) :
    s.encodeValue kind v = .ok w ↔ ∃ m, k.meaning? v = some m ∧ m.word = w := by
  have fits := Kind.fits_of_ofName? named.2
  have encoded : (s.encodeValue kind v).toOption = (k.meaning? v).map Meaning.word := by
    rw [Schema.encodeValue_atom v named notStruct, Kind.toOption_encode kind v fits]
  constructor
  · intro h
    rw [h] at encoded
    exact Option.map_eq_some_iff.1 encoded.symm
  · rintro ⟨m, said, rfl⟩
    rw [said] at encoded
    exact Result.eq_ok_of_toOption encoded

theorem encodeValue_uint_eq_ok_iff (named : Kind.Names kind (.uint bits))
    (notStruct : s.has kind = false) : s.encodeValue kind v = .ok w ↔
      ∃ x : Int, (Kind.natural? v).map Int.ofNat = some x ∧ (0 ≤ x ∧ x < 2 ^ bits) ∧
        Kind.intWord x = w := by
  have cast (n : Nat) : n < 2 ^ bits ↔ (n : Int) < 2 ^ bits := by exact_mod_cast Iff.rfl
  rw [encodeValue_eq_ok_iff named notStruct]
  simp [Kind.meaning?, Option.filter_eq_some_iff, Meaning.word, and_assoc, cast]

theorem encodeValue_int_eq_ok_iff (named : Kind.Names kind (.int bits))
    (notStruct : s.has kind = false) : s.encodeValue kind v = .ok w ↔
      ∃ x : Int, Kind.integer? v = some x ∧ (-2 ^ (bits - 1) ≤ x ∧ x < 2 ^ (bits - 1)) ∧
        Kind.intWord x = w := by
  rw [encodeValue_eq_ok_iff named notStruct]
  simp [Kind.meaning?, Option.filter_eq_some_iff, Meaning.word, and_assoc, Kind.fitsInt]

end Atoms

theorem Kind.int_of_natural? {n : Number} {x : Int}
    (h : (natural? (.number n)).map Int.ofNat = some x) : n = .int x := by
  cases n with
  | binary b => contradiction
  | int n =>
    cases n with
    | ofNat n => exact congrArg Number.int (Option.some.inj h)
    | negSucc n => contradiction

theorem Kind.int_of_integer? {n : Number} {x : Int} (h : integer? (.number n) = some x) :
    n = .int x := by
  cases n with
  | binary b => contradiction
  | int n => exact congrArg Number.int (Option.some.inj h)

/-- What is exact about a kind: the integers that are found in values are the ones given there,
those in JSON numbers are the numbers themselves, and words are read as what they were made of. -/
theorem Exact.of_found {s : Schema} {kind : String} {gives : Value → Int → Prop}
    {range : Int → Prop} {read : Word → Int} {found? : Value → Option Int}
    (encoded : ∀ v w, s.encodeValue kind v = .ok w ↔
      ∃ x, found? v = some x ∧ range x ∧ Kind.intWord x = w)
    (given : ∀ v x, gives v x → ∀ y, found? v = some y ∧ range y ↔ y = x ∧ range x)
    (number : ∀ n x, found? (.number n) = some x → n = .int x)
    (back : ∀ x, range x → read (Kind.intWord x) = x) : Exact s kind gives range read where
  accepts v x h := by
    constructor
    · rintro ⟨w, ok⟩
      obtain ⟨y, found, inside, _⟩ := (encoded v w).1 ok
      exact ((given v x h y).1 ⟨found, inside⟩).2
    · intro inside
      obtain ⟨found, _⟩ := (given v x h x).2 ⟨rfl, inside⟩
      exact ⟨_, (encoded v _).2 ⟨x, found, inside, rfl⟩⟩
  denotes v x w h ok := by
    obtain ⟨y, found, inside, rfl⟩ := (encoded v w).1 ok
    obtain ⟨rfl, _⟩ := (given v x h y).1 ⟨found, inside⟩
    exact back y inside
  binary b w ok := by
    obtain ⟨x, found, _⟩ := (encoded _ w).1 ok
    exact nomatch number _ x found
  written l n w read ok := by
    obtain ⟨x, found, inside, rfl⟩ := (encoded _ w).1 ok
    obtain rfl := number n x found
    obtain ⟨whole, rfl⟩ := Number.whole64_of_ofLiteral? read
    exact ⟨whole, back _ inside⟩

section Widths

variable {s : Schema} {width : String} {bits : Nat}

theorem Width.exact_uint (h : Width width bits) (notStruct : s.has ("uint" ++ width) = false) :
    Exact s ("uint" ++ width) Gives (fun x => 0 ≤ x ∧ x < 2 ^ bits) fun w => w.toNat := by
  have power : 2 ^ bits ≤ 2 ^ 256 := Nat.pow_le_pow_right (by decide) h.range.2
  have room : (2 : Int) ^ bits ≤ 2 ^ 256 := by exact_mod_cast power
  refine .of_found (fun _ _ => encodeValue_uint_eq_ok_iff h.names_uint notStruct) ?_
    (fun _ _ => Kind.int_of_natural?) ?_
  · intro v x given y
    rw [given.natural?_eq]
    split
    · next fits =>
      have cast : Int.ofNat x.toNat = x := Int.toNat_of_nonneg fits.1
      rw [Option.map_some, cast, Option.some.injEq]
      constructor
      · rintro ⟨rfl, inside⟩
        exact ⟨rfl, inside⟩
      · rintro ⟨rfl, inside⟩
        exact ⟨rfl, inside⟩
    · next outside =>
      have beyond : ¬ (0 ≤ x ∧ x < 2 ^ bits) := by omega
      simp [beyond]
  · rintro x ⟨low, high⟩
    obtain ⟨n, rfl⟩ := Int.eq_ofNat_of_zero_le low
    have fits : n < 2 ^ 256 := by omega
    rw [Kind.toNat_intWord fits]

theorem Width.exact_int (h : Width width bits) (notStruct : s.has ("int" ++ width) = false) :
    Exact s ("int" ++ width) GivesSigned (fun x => -2 ^ (bits - 1) ≤ x ∧ x < 2 ^ (bits - 1))
      FixedBytes.toInt := by
  have power : 2 ^ (bits - 1) ≤ 2 ^ 255 :=
    Nat.pow_le_pow_right (by decide) (Nat.sub_le_sub_right h.range.2 1)
  have room : (2 : Int) ^ (bits - 1) ≤ 2 ^ 255 := by exact_mod_cast power
  refine .of_found (fun _ _ => encodeValue_int_eq_ok_iff h.names_int notStruct) ?_
    (fun _ _ => Kind.int_of_integer?) ?_
  · intro v x given y
    rw [given.integer?_eq, Option.some.injEq]
    constructor
    · rintro ⟨rfl, inside⟩
      exact ⟨rfl, inside⟩
    · rintro ⟨rfl, inside⟩
      exact ⟨rfl, inside⟩
  · rintro x ⟨low, high⟩
    exact Kind.toInt_intWord (by omega) (by omega)

end Widths

/-- A kind of integers takes exactly the integers that fit its width, in either notation, and the
word is read as the integer that was given: as a number without sign, or in two's complement. No
fraction and no JSON number beyond 64 bits is ever taken. -/
theorem integer_kinds_exact {width : String} {bits : Nat} (h : Width width bits) (s : Schema) :
    (s.has ("uint" ++ width) = false →
      Exact s ("uint" ++ width) Gives (fun x => 0 ≤ x ∧ x < 2 ^ bits) fun w => w.toNat) ∧
    (s.has ("int" ++ width) = false →
      Exact s ("int" ++ width) GivesSigned (fun x => -2 ^ (bits - 1) ≤ x ∧ x < 2 ^ (bits - 1))
        FixedBytes.toInt) :=
  ⟨h.exact_uint, h.exact_int⟩

theorem integer_kinds_exact_eightBits :
    Width (Digits.text 8) 8 ∧ Order.schema.has ("uint" ++ Digits.text 8) = false ∧
      Order.schema.has ("int" ++ Digits.text 8) = false ∧
      (∃ w, Order.schema.encodeValue "uint8" (.text "255") = .ok w) ∧
      (∀ w, Order.schema.encodeValue "uint8" (.text "256") ≠ .ok w) ∧
      (∀ w, Order.schema.encodeValue "uint8" (.number (.int (-1))) ≠ .ok w) ∧
      (∃ w, Order.schema.encodeValue "int8" (.text "-128") = .ok w ∧ w.toInt = -128) ∧
      ∀ w, Order.schema.encodeValue "int8" (.number (.int 128)) ≠ .ok w := by
  have width : Width (Digits.text 8) 8 := .bits (by decide) (by decide) rfl
  have noUint : Order.schema.has ("uint" ++ Digits.text 8) = false := by decide
  have noInt : Order.schema.has ("int" ++ Digits.text 8) = false := by decide
  obtain ⟨unsigned, signed⟩ := integer_kinds_exact width Order.schema
  have eight : Digits.text 8 = "8" := by rw [Digits.text, Digits.ofNat]; rfl
  have uintName : "uint" ++ Digits.text 8 = "uint8" := by rw [eight]; rfl
  have intName : "int" ++ Digits.text 8 = "int8" := by rw [eight]; rfl
  have uint8 := unsigned noUint
  have int8 := signed noInt
  rw [uintName] at uint8
  rw [intName] at int8
  have most : Gives (.text "255") 255 := @Gives.numeral [2, 5, 5] (by decide)
  have above : Gives (.text "256") 256 := @Gives.numeral [2, 5, 6] (by decide)
  have below : Gives (.number (.int (-1))) (-1) := .number (by decide) (by decide)
  have least : GivesSigned (.text "-128") (-128) := @GivesSigned.minus [1, 2, 8] (by decide)
  have beyond : GivesSigned (.number (.int 128)) 128 := .unsigned (.number (by decide) (by decide))
  refine ⟨width, noUint, noInt, (uint8.accepts _ _ most).2 (by decide), ?_, ?_, ?_, ?_⟩
  · exact fun w ok => absurd ((uint8.accepts _ _ above).1 ⟨w, ok⟩) (by decide)
  · exact fun w ok => absurd ((uint8.accepts _ _ below).1 ⟨w, ok⟩) (by decide)
  · obtain ⟨w, ok⟩ := (int8.accepts _ _ least).2 (by decide)
    exact ⟨w, ok, int8.denotes _ _ w least ok⟩
  · exact fun w ok => absurd ((int8.accepts _ _ beyond).1 ⟨w, ok⟩) (by decide)

end TypedData

end VenueSigner
