import VenueSigner.Proofs.IntegerKinds
/-!
Names of kinds. A name that is no struct is supported if it is an atomic kind of the standard, but
then also with a plus sign or with zeros in front of the size. Such a name has no meaning anywhere
else, and still a value of it has a word: the one under the name without them.
-/

namespace VenueSigner

namespace Digits

open Positional (value value_concat value_zeros)

/-- The characters are the numeral of the number, with zeros and a plus sign in front or without. -/
inductive Padded (n : Nat) : List Char → Prop
  | zeros (count : Nat) : Padded n (toChars (List.replicate count 0 ++ ofNat n))
  | plus (count : Nat) : Padded n ('+' :: toChars (List.replicate count 0 ++ ofNat n))

theorem ofNat_step (n : Nat) (d : Digit) :
    ofNat (n * 10 + d.val) = if n = 0 then [d] else ofNat n ++ [d] := by
  have small : d.val < 10 := d.isLt
  have last : Fin.ofNat 10 (n * 10 + d.val) = d := Fin.ext (by simp only [Fin.ofNat]; omega)
  by_cases zero : n = 0
  · rw [ofNat, if_pos (by omega), last, if_pos zero]
  · have front : (n * 10 + d.val) / 10 = n := by omega
    rw [ofNat, if_neg (by omega), front, last, if_neg zero]

theorem exists_zeros {ds : List Digit} (some : ds ≠ []) :
    ∃ count, ds = List.replicate count 0 ++ ofNat (value ds) := by
  induction ds using List.reverseRecOn with
  | nil => contradiction
  | append_singleton ds d ih =>
    rw [value_concat, ofNat_step]
    by_cases none : ds = []
    · exact ⟨0, by rw [none]; rfl⟩
    · obtain ⟨count, written⟩ := ih none
      by_cases zero : value ds = 0
      · -- all digits in front of the last one are zeros
        have single : ofNat 0 = [0] := by rw [ofNat, if_pos (by decide)]; rfl
        rw [zero, single, ← List.replicate_succ'] at written
        exact ⟨count + 1, by rw [if_pos zero, ← written]⟩
      · exact ⟨count, by rw [if_neg zero, ← List.append_assoc, ← written]⟩

theorem signedNatural?_iff_padded {s : List Char} {n : Nat} :
    signedNatural? s = some n ↔ Padded n s := by
  rw [signedNatural?_eq_some_iff]
  constructor
  · rintro ⟨sign, ds, known, some, rfl, rfl⟩
    obtain ⟨count, written⟩ := exists_zeros some
    rw [List.mem_pair] at known
    rw [written, value_zeros, value_ofNat]
    obtain rfl | rfl := known
    · exact .zeros count
    · exact .plus count
  · have nonempty (count : Nat) : List.replicate count 0 ++ ofNat n ≠ [] :=
      List.append_ne_nil_of_right_ne_nil _ (ofNat_ne_nil n)
    have denotes (count : Nat) : value (List.replicate count 0 ++ ofNat n) = n := by
      rw [value_zeros, value_ofNat]
    rintro (count | count)
    · exact ⟨[], _, by simp, nonempty count, rfl, denotes count⟩
    · exact ⟨['+'], _, by simp, nonempty count, rfl, denotes count⟩

namespace Padded

variable {n : Nat} {s : List Char}

theorem ofNat (n : Nat) : Padded n (toChars (Digits.ofNat n)) :=
  .zeros 0

theorem ne_nil (h : Padded n s) : s ≠ [] := by
  cases h with
  | zeros count => simp [toChars, ofNat_ne_nil]
  | plus count => simp

theorem plus_or_digit (h : Padded n s) {c : Char} (member : c ∈ s) :
    c = '+' ∨ 48 ≤ c.toNat ∧ c.toNat ≤ 57 := by
  cases h with
  | zeros count => exact .inr (toChars_range member)
  | plus count => exact (List.mem_cons.1 member).imp id toChars_range

end Padded

end Digits

namespace TypedData

open Json (Value)

inductive Sized : String → Nat → Prop
  | bits {word : String} {n : Nat} (known : word ∈ ["uint", "int"]) (pos : 0 < n) (le : n ≤ 256)
      (bytes : n % 8 = 0) : Sized word n
  | bytes {n : Nat} (pos : 1 ≤ n) (le : n ≤ 32) : Sized "bytes" n

def bareNames : List String := ["string", "bytes", "address", "bool", "uint", "int"]

/-- The name is that of an atomic kind in the standard. -/
inductive Standard : String → Prop
  | bare {name : String} (known : name ∈ bareNames) : Standard name
  | sized {word : String} {n : Nat} (size : Sized word n) : Standard (word ++ Digits.text n)

/-- The second name is the first one, but for a plus sign and zeros in front of the size. -/
inductive Pads : String → String → Prop
  | bare {name : String} (known : name ∈ bareNames) : Pads name name
  | sized {word numeral : String} {n : Nat} (size : Sized word n)
      (padded : Digits.Padded n numeral.toList) : Pads (word ++ Digits.text n) (word ++ numeral)

theorem Sized.letter {word : String} {n : Nat} {c : Char} (h : Sized word n)
    (member : c ∈ word.toList) : 97 ≤ c.toNat := by
  cases h with
  | bits known _ _ _ =>
    have all : ∀ word ∈ ["uint", "int"], ∀ c ∈ word.toList, 97 ≤ c.toNat := by simp
    exact all word known c member
  | bytes _ _ =>
    have all : ∀ c ∈ "bytes".toList, 97 ≤ c.toNat := by simp
    exact all c member

theorem Pads.letter_plus_or_digit {plain name : String} {c : Char} (h : Pads plain name)
    (member : c ∈ name.toList) : 97 ≤ c.toNat ∨ c = '+' ∨ 48 ≤ c.toNat ∧ c.toNat ≤ 57 := by
  cases h with
  | bare known =>
    have all : ∀ name ∈ bareNames, ∀ c ∈ name.toList, 97 ≤ c.toNat := by simp [bareNames]
    exact .inl (all _ known c member)
  | sized size padded =>
    rw [String.toList_append, List.mem_append] at member
    exact member.imp size.letter padded.plus_or_digit

theorem Pads.standard {plain name : String} (h : Pads plain name) : Standard plain := by
  cases h with
  | bare known => exact .bare known
  | sized size _ => exact .sized size

namespace Kind

theorem ofName?_bytes {numeral : String} (some : numeral.toList ≠ []) :
    ofName? ("bytes" ++ numeral) = (size? numeral.toList).map fixedBytes := by
  have chars : ("bytes" ++ numeral).toList = ['b', 'y', 't', 'e', 's'] ++ numeral.toList :=
    String.toList_append
  unfold ofName?
  split
  · next word => cases chars.symm.trans (congrArg String.toList word)
  · next word =>
    exact absurd (List.append_cancel_left (chars.symm.trans (congrArg String.toList word))) some
  · next word => cases chars.symm.trans (congrArg String.toList word)
  · next word => cases chars.symm.trans (congrArg String.toList word)
  · rw [chars]
    rfl

theorem exists_names_of_sized {word : String} {n : Nat} (size : Sized word n) :
    ∃ k, ∀ numeral : String, Digits.Padded n numeral.toList → Names (word ++ numeral) k := by
  have notList {numeral : String} (letters : ']' ∉ word.toList)
      (padded : Digits.Padded n numeral.toList) :
      (word ++ numeral).toList.getLast? ≠ some ']' := by
    intro last
    have member := List.mem_of_getLast? last
    rw [String.toList_append, List.mem_append] at member
    exact absurd (padded.plus_or_digit (member.resolve_left letters)) (by decide)
  cases size with
  | bits known pos le bytes =>
    have width {numeral : String} (padded : Digits.Padded n numeral.toList) :
        width? numeral.toList = some n := by
      rw [width?.eq_2 _ padded.ne_nil, Digits.signedNatural?_iff_padded.2 padded,
        Option.filter_some]
      simp [pos, le, bytes]
    obtain rfl | rfl := List.mem_pair.1 known
    · refine ⟨.uint n, fun numeral padded => ⟨notList (by decide) padded, ?_⟩⟩
      rw [ofName?_uint, width padded, Option.map_some]
    · refine ⟨.int n, fun numeral padded => ⟨notList (by decide) padded, ?_⟩⟩
      rw [ofName?_int, width padded, Option.map_some]
  | bytes pos le =>
    refine ⟨.fixedBytes n, fun numeral padded => ⟨notList (by decide) padded, ?_⟩⟩
    rw [ofName?_bytes padded.ne_nil, size?, Digits.signedNatural?_iff_padded.2 padded,
      Option.filter_some]
    simp [pos, le]

theorem exists_names_of_pads {plain name : String} (h : Pads plain name) :
    ∃ k, Names plain k ∧ Names name k := by
  cases h with
  | bare known =>
    have all : ∀ name ∈ bareNames, ∃ k, Names name k := by
      simp only [bareNames, List.forall_mem_cons, List.not_mem_nil, false_imp_iff, implies_true,
        and_true]
      exact ⟨⟨_, by decide, rfl⟩, ⟨_, by decide, rfl⟩, ⟨_, by decide, rfl⟩, ⟨_, by decide, rfl⟩,
        ⟨_, by decide, rfl⟩, ⟨_, by decide, rfl⟩⟩
    obtain ⟨k, named⟩ := all _ known
    exact ⟨k, named, named⟩
  | @sized word numeral n size padded =>
    obtain ⟨k, named⟩ := exists_names_of_sized size
    refine ⟨k, named (Digits.text n) ?_, named numeral padded⟩
    rw [Digits.text, String.toList_ofList]
    exact .ofNat n

theorem sized_of_width? {word : String} {s : List Char} {n : Nat} (known : word ∈ ["uint", "int"])
    (h : width? s = some n) : s = [] ∨ Sized word n ∧ Digits.Padded n s := by
  unfold width? at h
  split at h
  · exact .inl rfl
  · obtain ⟨read, accepted⟩ := Option.filter_eq_some_iff.1 h
    simp only [Bool.and_eq_true, decide_eq_true_eq, beq_iff_eq] at accepted
    obtain ⟨⟨pos, le⟩, bytes⟩ := accepted
    exact .inr ⟨.bits known pos le bytes, Digits.signedNatural?_iff_padded.1 read⟩

theorem sized_of_size? {s : List Char} {n : Nat} (h : size? s = some n) :
    Sized "bytes" n ∧ Digits.Padded n s := by
  obtain ⟨read, accepted⟩ := Option.filter_eq_some_iff.1 h
  rw [Bool.and_eq_true, decide_eq_true_eq, decide_eq_true_eq] at accepted
  exact ⟨.bytes accepted.1 accepted.2, Digits.signedNatural?_iff_padded.1 read⟩

theorem exists_pads_of_ofName? {name : String} {k : Kind} (h : ofName? name = some k) :
    ∃ plain, Pads plain name := by
  have padded (word : String) {s : List Char} {n : Nat} (chars : name.toList = word.toList ++ s)
      (sized : Sized word n ∧ Digits.Padded n s) : ∃ plain, Pads plain name := by
    have split : name = word ++ String.ofList s :=
      String.toList_injective (by rw [chars, String.toList_append, String.toList_ofList])
    rw [split]
    exact ⟨_, .sized sized.1 (by rw [String.toList_ofList]; exact sized.2)⟩
  have integer (word : String) {s : List Char} {n : Nat} (known : word ∈ ["uint", "int"])
      (chars : name.toList = word.toList ++ s) (width : width? s = some n) :
      ∃ plain, Pads plain name := by
    obtain rfl | sized := sized_of_width? known width
    · rw [List.append_nil, String.toList_inj] at chars
      subst chars
      have bare : ∀ word ∈ ["uint", "int"], word ∈ bareNames := by decide
      exact ⟨name, .bare (bare name known)⟩
    · exact padded word chars sized
  unfold ofName? at h
  split at h
  case h_5 =>
    unfold sizedOfChars? at h
    split at h
    case h_1 chars =>
      obtain ⟨bits, width, _⟩ := Option.map_eq_some_iff.1 h
      exact integer "uint" (by decide) chars width
    case h_2 chars =>
      obtain ⟨bits, width, _⟩ := Option.map_eq_some_iff.1 h
      exact integer "int" (by decide) chars width
    case h_3 chars =>
      obtain ⟨size, found, _⟩ := Option.map_eq_some_iff.1 h
      exact padded "bytes" chars (sized_of_size? found)
    case h_4 => contradiction
  all_goals exact ⟨_, .bare (by decide)⟩

end Kind

/-- Whatever is wrong, it is not that a kind is unsupported. -/
def Supported {α : Type} (r : Result α) : Prop :=
  r.FailsOnly fun e => e.kind ≠ .unsupportedType

section Supporting

open Result (FailsOnly failsOnly_ok failsOnly_error)

theorem supported_error {α : Type} {e : Error} (h : (e.kind != .unsupportedType) = true) :
    Supported (.error e : Result α) :=
  failsOnly_error (bne_iff_ne.1 h)

theorem supported_hexText (name : String) (v : Value) : Supported (Kind.hexText name v) := by
  cases v with
  | text s => exact failsOnly_ok s
  | null | bool b | number n | list items | record members => exact supported_error rfl

theorem supported_hex (s : String) : Supported (Hex.parse s) :=
  Hex.failsOnly_parse (fun _ => nofun) s

theorem supported_address (s : String) : Supported (Address.parse s) := by
  unfold Address.parse
  cases Hex.decode s with
  | error bad => exact supported_error rfl
  | ok b =>
    simp only [Address.ofBytes]
    split
    · exact failsOnly_ok _
    · exact supported_error rfl

theorem supported_uint256 (s : String) : Supported (Uint256.parse s) :=
  Uint256.failsOnly_parse (fun _ => nofun) (fun _ => nofun) (fun _ => nofun) s

theorem supported_natural (name : String) (v : Value) : Supported (Kind.natural name v) := by
  unfold Kind.natural
  split
  · exact failsOnly_ok _
  · exact supported_error rfl
  · next s =>
    have read := supported_uint256 s
    cases result : Uint256.parse s with
    | ok n => exact failsOnly_ok n.val
    | error e => exact failsOnly_error (read e result)
  · exact supported_error rfl

theorem supported_numeral (name : String) (v : Value) : Supported (Kind.numeral name v) := by
  unfold Kind.numeral
  split
  · exact failsOnly_ok _
  · exact failsOnly_ok _
  · exact supported_error rfl

theorem supported_encode (k : Kind) (name : String) (v : Value) : Supported (k.encode name v) := by
  cases k with
  | text =>
    cases v with
    | text s => exact failsOnly_ok _
    | null | bool b | number n | list items | record members => exact supported_error rfl
  | bool =>
    cases v with
    | bool b => exact failsOnly_ok _
    | null | number n | text s | list items | record members => exact supported_error rfl
  | bytes =>
    refine (supported_hexText name v).bind fun s => ?_
    exact (supported_hex s).bind fun b => failsOnly_ok _
  | address =>
    refine (supported_hexText name v).bind fun s => ?_
    exact (supported_address s).bind fun a => failsOnly_ok _
  | uint bits =>
    refine (supported_natural name v).bind fun n => ?_
    split
    · exact failsOnly_ok _
    · exact supported_error rfl
  | int bits =>
    refine (supported_numeral name v).bind fun s => ?_
    split
    · exact failsOnly_ok _
    · exact supported_error rfl
  | fixedBytes size =>
    refine (supported_hexText name v).bind fun s => ?_
    refine (supported_hex s).bind fun b => ?_
    split
    · exact failsOnly_ok _
    · exact supported_error rfl

end Supporting

section Values

variable {s : Schema} {kind plain : String}

theorem supported_encodeValue (notStruct : s.has kind = false) (h : Pads plain kind) (v : Value) :
    Supported (s.encodeValue kind v) := by
  obtain ⟨k, _, named⟩ := Kind.exists_names_of_pads h
  rw [Schema.encodeValue_atom v named notStruct]
  exact supported_encode k kind v

theorem encodeValue_of_not_pads (notStruct : s.has kind = false) (h : ∀ plain, ¬ Pads plain kind)
    (v : Value) : s.encodeValue kind v = .error (.unsupportedKind kind) := by
  have unknown : Kind.ofName? kind = none := by
    cases named : Kind.ofName? kind with
    | none => rfl
    | some k =>
      obtain ⟨plain, pads⟩ := Kind.exists_pads_of_ofName? named
      exact absurd pads (h plain)
  rw [Schema.encodeValue, notStruct, unknown]
  split
  · rfl
  · rfl

theorem toOption_encodeValue_of_pads (notStruct : s.has kind = false)
    (plainNotStruct : s.has plain = false) (h : Pads plain kind) (v : Value) :
    (s.encodeValue kind v).toOption = (s.encodeValue plain v).toOption := by
  obtain ⟨k, named, named'⟩ := Kind.exists_names_of_pads h
  have fits := Kind.fits_of_ofName? named.2
  rw [Schema.encodeValue_atom v named' notStruct, Schema.encodeValue_atom v named plainNotStruct,
    Kind.toOption_encode kind v fits, Kind.toOption_encode plain v fits]

end Values

/-- Of the names that are no structs the atomic kinds of the standard are supported, and each of
them also with a plus sign and zeros in front of its size: a value then has the word that it has
under the name of the standard. All other names are refused. -/
theorem supported_iff_pads (s : Schema) {kind : String} (notStruct : s.has kind = false)
    (v : Value) :
    (Supported (s.encodeValue kind v) ↔ ∃ plain, Standard plain ∧ Pads plain kind) ∧
      (∀ plain, Pads plain kind → s.has plain = false →
        (s.encodeValue kind v).toOption = (s.encodeValue plain v).toOption) ∧
      (¬ Supported (s.encodeValue kind v) →
        s.encodeValue kind v = .error (.unsupportedKind kind)) := by
  by_cases pads : ∃ plain, Pads plain kind
  · obtain ⟨plain, h⟩ := pads
    have supported := supported_encodeValue notStruct h v
    exact ⟨⟨fun _ => ⟨plain, h.standard, h⟩, fun _ => supported⟩,
      fun plain h none => toOption_encodeValue_of_pads notStruct none h v, absurd supported⟩
  · have refused := encodeValue_of_not_pads notStruct (not_exists.1 pads) v
    have unsupported : ¬ Supported (s.encodeValue kind v) := fun h => h _ refused rfl
    refine ⟨⟨fun h => absurd h unsupported, ?_⟩, ?_, fun _ => refused⟩
    · rintro ⟨plain, _, h⟩
      exact absurd ⟨plain, h⟩ pads
    · intro plain h
      exact absurd ⟨plain, h⟩ pads

theorem pads_plusEight : Pads "uint8" "uint+8" := by
  have eight : Digits.text 8 = "8" := by rw [Digits.text, Digits.ofNat]; rfl
  have size : Sized "uint" 8 := .bits (by decide) (by decide) (by decide) rfl
  have padded : Digits.Padded 8 "+8".toList := Digits.signedNatural?_iff_padded.1 rfl
  have pads := Pads.sized size padded
  rw [eight] at pads
  exact pads

theorem supported_iff_pads_plusEight :
    Order.schema.has "uint+8" = false ∧ Order.schema.has "uint7" = false ∧
      Supported (Order.schema.encodeValue "uint+8" (.number (.int 1))) ∧
      (Order.schema.encodeValue "uint+8" (.number (.int 1))).toOption =
        (Order.schema.encodeValue "uint8" (.number (.int 1))).toOption ∧
      ¬ ∃ plain, Standard plain ∧ Pads plain "uint7" := by
  have noStruct : Order.schema.has "uint+8" = false := by decide
  have noStruct' : Order.schema.has "uint7" = false := by decide
  obtain ⟨supported, same, _⟩ := supported_iff_pads Order.schema noStruct (.number (.int 1))
  obtain ⟨seven, _, _⟩ := supported_iff_pads Order.schema noStruct' (.number (.int 1))
  have unsupported : ¬ Supported (Order.schema.encodeValue "uint7" (.number (.int 1))) := by
    rw [Schema.encodeValue, noStruct']
    exact fun h => h _ rfl rfl
  exact ⟨noStruct, noStruct', supported.2 ⟨_, pads_plusEight.standard, pads_plusEight⟩,
    same "uint8" pads_plusEight (by decide), fun h => unsupported (seven.2 h)⟩

theorem Standard.noPlus {name : String} (h : Standard name) : '+' ∉ name.toList := by
  cases h with
  | bare known =>
    have all : ∀ name ∈ bareNames, '+' ∉ name.toList := by decide
    exact all name known
  | @sized word n size =>
    have letters : '+' ∉ word.toList := fun member => absurd (size.letter member) (by decide)
    intro member
    rw [String.toList_append, List.mem_append, Digits.text, String.toList_ofList] at member
    exact absurd (Digits.toChars_range (member.resolve_left letters)) (by decide)

/-- What is supported beside the kinds of the standard. -/
theorem not_standard_of_supported :
    Order.schema.has "uint+8" = false ∧
      Order.schema.encodeValue "uint+8" (.number (.int 1)) = .ok (FixedBytes.ofNat 32 1) ∧
      ¬ Standard "uint+8" := by
  have noStruct : Order.schema.has "uint+8" = false := by decide
  have named : Kind.Names "uint+8" (.uint 8) := ⟨by decide, rfl⟩
  refine ⟨noStruct, ?_, fun h => absurd h.noPlus (by decide)⟩
  rw [Schema.encodeValue_atom _ named noStruct]
  rfl

end TypedData

end VenueSigner
