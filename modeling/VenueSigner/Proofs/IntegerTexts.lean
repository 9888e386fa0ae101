import VenueSigner.Proofs.Declared
import VenueSigner.Proofs.IntegerKinds
import VenueSigner.Proofs.NumeralText
/-!
Texts of integers. Where a number without sign is expected, a text is taken for one exactly if it
is a numeral to the base ten, or behind `0x` to the base sixteen. Where a sign is allowed more is
taken: separators do not count, and no digits at all denote zero.
-/

namespace VenueSigner

theorem Digit.toChar_ne_mark (d : Digit) : d.toChar ≠ '+' ∧ d.toChar ≠ '-' ∧ d.toChar ≠ '_' := by
  revert d
  decide

namespace TypedData

namespace Kind

theorem natural?_text_eq_some_iff {t : String} {n : Nat} :
    natural? (.text t) = some n ↔ NaturalText (Blank.trim t).toList n ∧ n < 2 ^ 256 := by
  rw [natural?, Uint256.toOption_parse, ← Uint256.numeral?_eq_some_iff]
  cases Uint256.numeral? (Blank.trim t) with
  | none => simp
  | some m =>
    rw [Option.bind_some, Uint.ofNat?, Option.some.injEq]
    split
    · next fits =>
      constructor
      · rintro ⟨⟩
        exact ⟨rfl, fits⟩
      · rintro ⟨rfl, _⟩
        rfl
    · next beyond =>
      constructor
      · rintro ⟨⟩
      · rintro ⟨rfl, fits⟩
        exact absurd fits beyond

/-- The characters are the digits, in their order, and separators in any places. -/
inductive Separated : List Char → List Digit → Prop
  | nil : Separated [] []
  | separator {cs : List Char} {ds : List Digit} (rest : Separated cs ds) : Separated ('_' :: cs) ds
  | digit {cs : List Char} {ds : List Digit} (d : Digit) (rest : Separated cs ds) :
      Separated (d.toChar :: cs) (d :: ds)

theorem separated_iff {cs : List Char} {ds : List Digit} :
    Separated cs ds ↔ cs.filter (· != '_') = Digits.toChars ds := by
  constructor
  · intro h
    induction h with
    | nil => rfl
    | separator rest ih => rw [List.filter_cons_of_neg (by decide), ih]
    | digit d rest ih =>
      rw [List.filter_cons, if_pos (bne_iff_ne.2 d.toChar_ne_mark.2.2), ih]
      rfl
  · intro h
    induction cs generalizing ds with
    | nil =>
      obtain rfl : ds = [] := List.map_eq_nil_iff.1 h.symm
      exact .nil
    | cons c cs ih =>
      by_cases mark : c = '_'
      · subst mark
        rw [List.filter_cons_of_neg (by decide)] at h
        exact .separator (ih h)
      · rw [List.filter_cons, if_pos (bne_iff_ne.2 mark)] at h
        cases ds with
        | nil => contradiction
        | cons d ds =>
          obtain ⟨rfl, rest⟩ := List.cons.inj h
          exact .digit d (ih rest)

theorem map_looseNatural?_eq_some_iff {cs : List Char} {f : Nat → Int} {x : Int} :
    (looseNatural? cs).map f = some x ↔ ∃ ds, Separated cs ds ∧ f (Positional.value ds) = x := by
  simp only [looseNatural?, Option.map_map, Option.map_eq_some_iff, Digits.ofChars?_eq_some_iff,
    separated_iff, Function.comp_apply]

/-- The characters are taken for the integer: digits behind a sign or without, in which separators
do not count, and none of which need be there. -/
inductive Taken : List Char → Int → Prop
  | unsigned {cs : List Char} {ds : List Digit} (h : Separated cs ds) :
      Taken cs (Positional.value ds)
  | plus {cs : List Char} {ds : List Digit} (h : Separated cs ds) :
      Taken ('+' :: cs) (Positional.value ds)
  | minus {cs : List Char} {ds : List Digit} (h : Separated cs ds) :
      Taken ('-' :: cs) (-(Positional.value ds))

theorem looseInteger?_of_separated {cs : List Char} {ds : List Digit} (h : Separated cs ds) :
    looseInteger? cs = (looseNatural? cs).map Int.ofNat := by
  cases h with
  | nil => rfl
  | separator rest => rfl
  | digit d rest =>
    obtain ⟨noPlus, noMinus, _⟩ := d.toChar_ne_mark
    exact looseInteger?.eq_3 _ (fun _ same => noPlus (List.cons.inj same).1)
      fun _ same => noMinus (List.cons.inj same).1

theorem looseInteger?_eq_some_iff {cs : List Char} {x : Int} :
    looseInteger? cs = some x ↔ Taken cs x := by
  constructor
  · intro h
    unfold looseInteger? at h
    split at h
    · obtain ⟨ds, separated, rfl⟩ := map_looseNatural?_eq_some_iff.1 h
      exact .plus separated
    · obtain ⟨ds, separated, rfl⟩ := map_looseNatural?_eq_some_iff.1 h
      exact .minus separated
    · obtain ⟨ds, separated, rfl⟩ := map_looseNatural?_eq_some_iff.1 h
      exact .unsigned separated
  · intro h
    cases h with
    | unsigned h =>
      rw [looseInteger?_of_separated h]
      exact map_looseNatural?_eq_some_iff.2 ⟨_, h, rfl⟩
    | plus h => exact map_looseNatural?_eq_some_iff.2 ⟨_, h, rfl⟩
    | minus h => exact map_looseNatural?_eq_some_iff.2 ⟨_, h, rfl⟩

def signs : List (List Char) := [[], ['+'], ['-']]

/-- The characters are an integer: one sign at most, and digits. -/
def IsInteger (cs : List Char) : Prop :=
  ∃ sign ∈ signs, ∃ ds, ds ≠ [] ∧ cs = sign ++ Digits.toChars ds

theorem IsInteger.noSeparator {cs : List Char} (h : IsInteger cs) : '_' ∉ cs ∧ cs ∉ signs := by
  obtain ⟨sign, known, ds, some, rfl⟩ := h
  obtain ⟨d, ds, rfl⟩ := List.exists_cons_of_ne_nil some
  obtain ⟨noPlus, noMinus, _⟩ := d.toChar_ne_mark
  constructor
  · intro member
    obtain inSign | inDigits := List.mem_append.1 member
    · have all : ∀ sign ∈ signs, '_' ∉ sign := by decide
      exact all sign known inSign
    · exact absurd (Digits.toChars_range inDigits) (by decide)
  · simp only [signs, List.mem_cons, List.not_mem_nil, or_false] at known
    obtain rfl | rfl | rfl := known <;> simp [signs, Digits.toChars, noPlus, noMinus]

theorem Separated.eq_toChars {cs : List Char} {ds : List Digit} (h : Separated cs ds)
    (plain : '_' ∉ cs) : cs = Digits.toChars ds := by
  rw [← separated_iff.1 h, eq_comm, List.filter_eq_self]
  rintro c member
  rw [bne_iff_ne]
  rintro rfl
  exact plain member

theorem Taken.isInteger {cs : List Char} {x : Int} (h : Taken cs x) (plain : '_' ∉ cs)
    (some : cs ∉ signs) : IsInteger cs := by
  have nonempty (sign : List Char) {cs : List Char} {ds : List Digit} (known : sign ∈ signs)
      (same : cs = Digits.toChars ds) (some : sign ++ cs ∉ signs) : IsInteger (sign ++ cs) := by
    refine ⟨sign, known, ds, ?_, by rw [same]⟩
    rintro rfl
    rw [same] at some
    exact some (by rw [Digits.toChars, List.map_nil, List.append_nil]; exact known)
  cases h with
  | unsigned h => exact nonempty [] (by decide) (h.eq_toChars plain) some
  | plus h =>
    have same := h.eq_toChars fun member => plain (List.mem_cons_of_mem _ member)
    exact nonempty ['+'] (by decide) same some
  | minus h =>
    have same := h.eq_toChars fun member => plain (List.mem_cons_of_mem _ member)
    exact nonempty ['-'] (by decide) same some

end Kind

section Texts

variable {s : Schema} {kind : String} {bits : Nat} {t : String} {w : Word}

theorem notStruct_of_text (ok : s.encodeValue kind (.text t) = .ok w) : s.has kind = false := by
  rw [Bool.eq_false_iff]
  intro known
  obtain ⟨bytes, ok⟩ := Schema.encodeStruct_of_encodeValue known ok
  rw [Schema.encodeStruct] at ok
  split at ok <;> contradiction

theorem encodeValue_int_text_iff (named : Kind.Names kind (.int bits)) :
    s.encodeValue kind (.text t) = .ok w ↔ s.has kind = false ∧
      ∃ x, Kind.Taken (Blank.trim t).toList x ∧ (-2 ^ (bits - 1) ≤ x ∧ x < 2 ^ (bits - 1)) ∧
        Kind.intWord x = w := by
  have atom (notStruct : s.has kind = false) := @encodeValue_int_eq_ok_iff s kind bits (.text t) w
    named notStruct
  simp only [Kind.integer?, Kind.looseInteger?_eq_some_iff] at atom
  constructor
  · intro ok
    have notStruct := notStruct_of_text ok
    exact ⟨notStruct, (atom notStruct).1 ok⟩
  · rintro ⟨notStruct, taken⟩
    exact (atom notStruct).2 taken

theorem encodeValue_uint_text_iff (named : Kind.Names kind (.uint bits)) (fits : bits ≤ 256) :
    s.encodeValue kind (.text t) = .ok w ↔ s.has kind = false ∧
      ∃ n : Nat, NaturalText (Blank.trim t).toList n ∧ n < 2 ^ bits ∧ Kind.intWord n = w := by
  have power : 2 ^ bits ≤ 2 ^ 256 := Nat.pow_le_pow_right (by decide) fits
  constructor
  · intro ok
    have notStruct := notStruct_of_text ok
    obtain ⟨x, found, ⟨_, high⟩, word⟩ := (encodeValue_uint_eq_ok_iff named notStruct).1 ok
    obtain ⟨n, read, rfl⟩ := Option.map_eq_some_iff.1 found
    have numeral := (Kind.natural?_text_eq_some_iff.1 read).1
    rw [Int.ofNat_eq_natCast] at high
    exact ⟨notStruct, n, numeral, by exact_mod_cast high, word⟩
  · rintro ⟨notStruct, n, numeral, high, word⟩
    have room : n < 2 ^ 256 := Nat.lt_of_lt_of_le high power
    have read := Kind.natural?_text_eq_some_iff.2 ⟨numeral, room⟩
    refine (encodeValue_uint_eq_ok_iff named notStruct).2 ⟨n, ?_, ⟨?_, ?_⟩, word⟩
    · rw [read]
      rfl
    · exact Int.natCast_nonneg n
    · exact_mod_cast high

end Texts

/-- The texts that kinds of integers take, and the words for them, blanks at the ends aside. With a
sign allowed, what is taken is an integer unless it has separators in it or no digits. Without one
it is always a numeral, to the base ten or sixteen. -/
theorem texts_of_integers {width : String} {bits : Nat} (h : Width width bits) (s : Schema)
    (t : String) (w : Word) :
    (s.encodeValue ("int" ++ width) (.text t) = .ok w ↔ s.has ("int" ++ width) = false ∧
      ∃ x, Kind.Taken (Blank.trim t).toList x ∧ (-2 ^ (bits - 1) ≤ x ∧ x < 2 ^ (bits - 1)) ∧
        Kind.intWord x = w) ∧
    (s.encodeValue ("int" ++ width) (.text t) = .ok w → (Kind.IsInteger (Blank.trim t).toList ↔
      '_' ∉ (Blank.trim t).toList ∧ (Blank.trim t).toList ∉ Kind.signs)) ∧
    (s.encodeValue ("uint" ++ width) (.text t) = .ok w ↔ s.has ("uint" ++ width) = false ∧
      ∃ n : Nat, NaturalText (Blank.trim t).toList n ∧ n < 2 ^ bits ∧ Kind.intWord n = w) := by
  have signed := @encodeValue_int_text_iff s _ bits t w h.names_int
  refine ⟨signed, fun ok => ⟨fun h => h.noSeparator, fun ⟨plain, digits⟩ => ?_⟩,
    encodeValue_uint_text_iff h.names_uint h.range.2⟩
  obtain ⟨_, x, taken, _⟩ := signed.1 ok
  exact taken.isInteger plain digits

theorem texts_of_integers_eightBits :
    Width (Digits.text 8) 8 ∧
      Order.schema.encodeValue "int8" (.text " -1_0") = .ok (Kind.intWord (-10)) ∧
      Order.schema.encodeValue "uint8" (.text "0xA ") = .ok (Kind.intWord 10) ∧
      ∀ w, Order.schema.encodeValue "uint8" (.text "1_0") ≠ .ok w := by
  have width : Width (Digits.text 8) 8 := .bits (by decide) (by decide) rfl
  have eight : Digits.text 8 = "8" := by rw [Digits.text, Digits.ofNat]; rfl
  have uintName : "uint" ++ Digits.text 8 = "uint8" := by rw [eight]; rfl
  have intName : "int" ++ Digits.text 8 = "int8" := by rw [eight]; rfl
  have texts := texts_of_integers width Order.schema
  rw [uintName, intName] at texts
  have minusTen : Kind.Taken (Blank.trim " -1_0").toList (-10) :=
    .minus (.digit 1 (.separator (.digit 0 .nil)))
  have ten : NaturalText (Blank.trim "0xA ").toList 10 :=
    @NaturalText.hex 'x' ['0'] ['A'] [10] (by decide) (by decide)
      (.cons (.inl rfl) (.inr rfl) .nil)
  refine ⟨width, (texts _ _).1.2 ⟨by decide, -10, minusTen, by decide, rfl⟩,
    (texts _ _).2.2.2 ⟨by decide, 10, ten, by decide, rfl⟩, fun w ok => ?_⟩
  obtain ⟨_, n, numeral, _⟩ := (texts "1_0" w).2.2.1 ok
  have read := Uint256.numeral?_eq_some_iff.2 numeral
  contradiction

/-- Texts without digits, or with separators among them, are no integers and are taken for some. -/
theorem not_isInteger_of_taken :
    Order.schema.encodeValue "int256" (.text "") = .ok (Kind.intWord 0) ∧
      ¬ Kind.IsInteger (Blank.trim "").toList ∧
      Order.schema.encodeValue "int256" (.text "-") = .ok (Kind.intWord 0) ∧
      ¬ Kind.IsInteger (Blank.trim "-").toList ∧
      Order.schema.encodeValue "int256" (.text "1_000") = .ok (Kind.intWord 1000) ∧
      ¬ Kind.IsInteger (Blank.trim "1_000").toList := by
  have named : Kind.Names "int256" (.int 256) := ⟨by decide, rfl⟩
  have noStruct : Order.schema.has "int256" = false := by decide
  refine ⟨?_, fun h => h.noSeparator.2 (by decide), ?_, fun h => h.noSeparator.2 (by decide), ?_,
    fun h => h.noSeparator.1 (by decide)⟩
  · rw [Schema.encodeValue_atom _ named noStruct]
    rfl
  · rw [Schema.encodeValue_atom _ named noStruct]
    rfl
  · rw [Schema.encodeValue_atom _ named noStruct]
    rfl

end TypedData

end VenueSigner
