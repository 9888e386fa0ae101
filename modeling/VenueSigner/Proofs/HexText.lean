import Mathlib.Data.List.Forall2
import Mathlib.Data.List.Induction
import Mathlib.Tactic.SplitIfs
import VenueSigner.Proofs.ReadBack
/-!
Hexadecimal texts. What is read are digits, each in either case, behind one mark or none. The bytes
are those of the number that the digits denote, and written again they are the same digits in
lowercase, with a zero in front if their count was odd.
-/

namespace VenueSigner

namespace Hex

open Positional (value)

def IsDigit (c : Char) : Prop :=
  '0' ≤ c ∧ c ≤ '9' ∨ 'a' ≤ c ∧ c ≤ 'f' ∨ 'A' ≤ c ∧ c ≤ 'F'

instance (c : Char) : Decidable (IsDigit c) :=
  inferInstanceAs (Decidable (_ ∨ _))

local instance (priority := high) digitNonempty : @NeZero Nat Zero.ofOfNat0 16 :=
  Nat.instNeZeroSucc

def digits (b : Bytes) : List (Fin 16) :=
  b.flatMap fun x => [Fin.ofNat 16 (x.toNat / 16), Fin.ofNat 16 x.toNat]

def whole (ds : List (Fin 16)) : List (Fin 16) :=
  if ds.length % 2 = 1 then 0 :: ds else ds

@[simp] theorem digits_cons (x : UInt8) (b : Bytes) :
    digits (x :: b) = Fin.ofNat 16 (x.toNat / 16) :: Fin.ofNat 16 x.toNat :: digits b :=
  rfl

@[simp] theorem length_digits (b : Bytes) : (digits b).length = 2 * b.length := by
  induction b with
  | nil => rfl
  | cons x b ih => simp only [digits_cons, List.length_cons, ih]; omega

theorem encodeChars_eq (b : Bytes) : encodeChars b = (digits b).map digitChar := by
  induction b with
  | nil => rfl
  | cons x b ih => simpa [encodeChars, byteChars] using ih

theorem value_digits (b : Bytes) : value (digits b) = b.toNat := by
  have general (n : Nat) : (digits b).foldl (fun n d => n * 16 + d.val) n =
      b.foldl (fun n x => n * 256 + x.toNat) n := by
    induction b generalizing n with
    | nil => rfl
    | cons x b ih =>
      have small : x.toNat < 256 := x.toNat_lt
      have step : (n * 16 + x.toNat / 16 % 16) * 16 + x.toNat % 16 = n * 256 + x.toNat := by omega
      rw [digits_cons, List.foldl_cons, List.foldl_cons, List.foldl_cons, ← step]
      exact ih _
  rw [Bytes.toNat_eq_foldl]
  exact general 0

theorem value_whole (ds : List (Fin 16)) : value (whole ds) = value ds := by
  unfold whole
  split
  · rfl
  · rfl

theorem length_whole (ds : List (Fin 16)) : (whole ds).length = 2 * ((ds.length + 1) / 2) := by
  unfold whole
  split
  · rw [List.length_cons]; omega
  · omega

theorem toNat_of_digits_eq {b : Bytes} {ds : List (Fin 16)} (h : digits b = whole ds) :
    b.toNat = value ds := by
  rw [← value_digits, h, value_whole]

theorem length_of_digits_eq {b : Bytes} {ds : List (Fin 16)} (h : digits b = whole ds) :
    b.length = (ds.length + 1) / 2 := by
  have twice : 2 * b.length = 2 * ((ds.length + 1) / 2) := by
    rw [← length_digits, h, length_whole]
  omega

theorem whole_of_even {ds : List (Fin 16)} (even : ds.length % 2 = 0) : whole ds = ds :=
  if_neg (by omega)

theorem digits_pair (m n : Fin 16) : digits [UInt8.ofNat (m.val * 16 + n.val)] = [m, n] := by
  have byte : (UInt8.ofNat (m.val * 16 + n.val)).toNat = m.val * 16 + n.val := by
    rw [UInt8.toNat_ofNat']
    omega
  have high : Fin.ofNat 16 ((m.val * 16 + n.val) / 16) = m :=
    Fin.ext (by simp only [Fin.ofNat]; omega)
  have low : Fin.ofNat 16 (m.val * 16 + n.val) = n := Fin.ext (by simp only [Fin.ofNat]; omega)
  rw [digits_cons, byte, high, low]
  rfl

theorem exists_digits_eq {ds : List (Fin 16)} (even : ds.length % 2 = 0) :
    ∃ b, digits b = ds := by
  induction ds using List.twoStepInduction with
  | nil => exact ⟨[], rfl⟩
  | singleton d => contradiction
  | cons_cons m n ds ih _ =>
    rw [List.length_cons, List.length_cons] at even
    obtain ⟨b, rfl⟩ := ih (by omega)
    exact ⟨UInt8.ofNat (m.val * 16 + n.val) :: b, congrArg (· ++ digits b) (digits_pair m n)⟩

theorem exists_digits_eq_whole (ds : List (Fin 16)) : ∃ b, digits b = whole ds :=
  exists_digits_eq (by rw [length_whole]; omega)

instance (c : Char) (d : Fin 16) : Decidable (Spells c d) :=
  inferInstanceAs (Decidable (_ ∨ _))

theorem Spells.eq {c : Char} {d e : Fin 16} (h : Spells c d) (h' : Spells c e) : d = e := by
  have same := h.digitValue?.symm.trans h'.digitValue?
  exact Fin.ext (Option.some.inj same)

theorem Spells.toLower {c : Char} {d : Fin 16} (h : Spells c d) : c.toLower = digitChar d := by
  have all : ∀ d : Fin 16, (digitChar d).toLower = digitChar d ∧
      (digitChar d).toUpper.toLower = digitChar d := by decide
  obtain rfl | rfl := h
  · exact (all d).1
  · exact (all d).2

theorem of_ascii {p : Char → Prop} {c : Char} (ascii : c.toNat < 128)
    (all : ∀ k : Fin 128, p (Char.ofNat k.val)) : p c := by
  have found := all ⟨c.toNat, ascii⟩
  rwa [Char.ofNat_toNat] at found

theorem isDigit_iff {c : Char} : IsDigit c ↔ ∃ d, Spells c d := by
  constructor
  · intro h
    have ascii : c.toNat < 128 := by
      obtain ⟨_, h⟩ | ⟨_, h⟩ | ⟨_, h⟩ := h <;> exact Nat.lt_of_le_of_lt h (by decide)
    exact of_ascii ascii (p := fun c => IsDigit c → ∃ d, Spells c d) (by decide) h
  · have all : ∀ d : Fin 16, IsDigit (digitChar d) ∧ IsDigit (digitChar d).toUpper := by decide
    rintro ⟨d, rfl | rfl⟩
    · exact (all d).1
    · exact (all d).2

theorem forall_isDigit_iff {cs : List Char} :
    (∀ c ∈ cs, IsDigit c) ↔ ∃ ds, List.Forall₂ Spells cs ds := by
  constructor
  · intro h
    induction cs with
    | nil => exact ⟨[], .nil⟩
    | cons c cs ih =>
      rw [List.forall_mem_cons] at h
      obtain ⟨d, spells⟩ := isDigit_iff.1 h.1
      obtain ⟨ds, rest⟩ := ih h.2
      exact ⟨d :: ds, .cons spells rest⟩
  · rintro ⟨ds, spelled⟩
    induction spelled with
    | nil => simp
    | cons spells _ ih => exact List.forall_mem_cons.2 ⟨isDigit_iff.2 ⟨_, spells⟩, ih⟩

theorem map_toLower {cs : List Char} {ds : List (Fin 16)} (h : List.Forall₂ Spells cs ds) :
    cs.map Char.toLower = ds.map digitChar := by
  induction h with
  | nil => rfl
  | cons spells _ ih => rw [List.map_cons, List.map_cons, spells.toLower, ih]

theorem spellsAll_iff {cs : List Char} {b : Bytes} :
    SpellsAll cs b ↔ List.Forall₂ Spells cs (digits b) := by
  constructor
  · intro h
    induction h with
    | nil => exact .nil
    | cons high low rest ih => exact .cons high (.cons low ih)
  · intro h
    induction b generalizing cs with
    | nil =>
      obtain rfl := List.forall₂_nil_right_iff.1 h
      exact .nil
    | cons x b ih =>
      obtain _ | ⟨high, _ | ⟨low, rest⟩⟩ := h
      exact .cons high low (ih rest)

theorem decodePairs_cons_eq_ok_iff {position : Nat} {high low : UInt8} {rest bs : Bytes} :
    decodePairs position (high :: low :: rest) = .ok bs ↔
      ∃ h l tail, digitValue? high = some h ∧ digitValue? low = some l ∧
        decodePairs (position + 2) rest = .ok tail ∧ UInt8.ofNat (h * 16 + l) :: tail = bs := by
  rw [decodePairs, digitAt, digitAt]
  cases digitValue? high with
  | none => simp [bind, Except.bind]
  | some h =>
    cases digitValue? low with
    | none => simp [bind, Except.bind]
    | some l =>
      cases decodePairs (position + 2) rest with
      | error bad => simp [bind, Except.bind]
      | ok tail => simp [bind, Except.bind, pure, Except.pure]

theorem digits_of_decodePairs {position : Nat} {b bs : Bytes} (h : decodePairs position b = .ok bs)
    (even : b.length % 2 = 0) : ∀ x ∈ b, (digitValue? x).isSome := by
  induction position, b using decodePairs.induct generalizing bs with
  | case1 position high low rest ih =>
    obtain ⟨m, n, tail, first, second, others, _⟩ := decodePairs_cons_eq_ok_iff.1 h
    have fewer : rest.length % 2 = 0 := by
      rw [List.length_cons, List.length_cons] at even
      omega
    simp only [List.forall_mem_cons]
    exact ⟨Option.isSome_of_eq_some first, Option.isSome_of_eq_some second, ih others fewer⟩
  | case2 b position short =>
    match b with
    | [] => exact List.forall_mem_nil _
    | [_] => contradiction
    | x :: y :: rest => exact (short x y rest rfl).elim

theorem toNat_le_of_digitValue? {b : UInt8} (h : (digitValue? b).isSome) : b.toNat ≤ 102 := by
  unfold digitValue? at h
  split_ifs at h
  · omega
  · omega
  · omega
  · contradiction

theorem ascii_of_digits {c : Char}
    (h : ∀ b ∈ String.utf8EncodeChar c, (digitValue? b).isSome) : c.toNat < 128 :=
  ascii_of_utf8EncodeChar fun b member =>
    Nat.lt_of_le_of_lt (toNat_le_of_digitValue? (h b member)) (by decide)

theorem spells_of_digitValue? {c : Char} (ascii : c.toNat < 128) {n : Nat}
    (h : digitValue? (UInt8.ofNat c.toNat) = some n) : ∃ d : Fin 16, d.val = n ∧ Spells c d := by
  refine of_ascii ascii (p := fun c => ∀ n ∈ digitValue? (UInt8.ofNat c.toNat),
    ∃ d : Fin 16, d.val = n ∧ Spells c d) ?_ n h
  decide

theorem spelled_of_decodePairs {cs : List Char} {b : Bytes} {position : Nat}
    (ascii : ∀ c ∈ cs, c.toNat < 128) (even : cs.length % 2 = 0)
    (h : decodePairs position (cs.map fun c => UInt8.ofNat c.toNat) = .ok b) :
    List.Forall₂ Spells cs (digits b) := by
  induction cs using List.twoStepInduction generalizing position b with
  | nil =>
    obtain rfl : [] = b := Except.ok.inj h
    exact .nil
  | singleton c => contradiction
  | cons_cons c d cs ih _ =>
    rw [List.forall_mem_cons, List.forall_mem_cons] at ascii
    obtain ⟨first, second, others⟩ := ascii
    have fewer : cs.length % 2 = 0 := by
      rw [List.length_cons, List.length_cons] at even
      omega
    obtain ⟨_, _, tail, high, low, rest, rfl⟩ := decodePairs_cons_eq_ok_iff.1 h
    obtain ⟨m, rfl, spellsHigh⟩ := spells_of_digitValue? first high
    obtain ⟨n, rfl, spellsLow⟩ := spells_of_digitValue? second low
    have pair : digits (UInt8.ofNat (m.val * 16 + n.val) :: tail) = m :: n :: digits tail :=
      congrArg (· ++ digits tail) (digits_pair m n)
    rw [pair]
    exact .cons spellsHigh (.cons spellsLow (ih others fewer rest))

/-- A text is decoded if it spells bytes, and only then. -/
theorem decodePairs_ofText_eq_ok_iff {cs : List Char} {b : Bytes} {position : Nat} :
    (cs.flatMap String.utf8EncodeChar).length % 2 = 0 ∧
        decodePairs position (cs.flatMap String.utf8EncodeChar) = .ok b ↔ SpellsAll cs b := by
  constructor
  · rintro ⟨even, h⟩
    have digits := digits_of_decodePairs h even
    have ascii : ∀ c ∈ cs, c.toNat < 128 := fun c member =>
      ascii_of_digits fun b byte => digits b (List.mem_flatMap_of_mem member byte)
    rw [flatMap_utf8EncodeChar ascii] at even h
    rw [List.length_map] at even
    exact spellsAll_iff.2 (spelled_of_decodePairs ascii even h)
  · intro h
    rw [flatMap_utf8EncodeChar h.ascii, List.length_map]
    exact ⟨h.length_even, h.decodePairs position⟩

theorem decodeDigits_ofText_eq_ok_iff {cs : List Char} {b : Bytes} :
    decodeDigits (cs.flatMap String.utf8EncodeChar) = .ok b ↔
      ∃ zero ∈ [[], ['0']], SpellsAll (zero ++ cs) b := by
  have behindZero : ('0' :: cs).flatMap String.utf8EncodeChar =
      48 :: cs.flatMap String.utf8EncodeChar := rfl
  simp only [List.mem_pair, exists_eq_or_imp, exists_eq_left, List.nil_append,
    List.singleton_append, ← @decodePairs_ofText_eq_ok_iff _ b 0, behindZero, List.length_cons]
  unfold decodeDigits
  split
  · next odd =>
    have uneven : ¬ (cs.flatMap String.utf8EncodeChar).length % 2 = 0 := by omega
    have longer : ((cs.flatMap String.utf8EncodeChar).length + 1) % 2 = 0 := by omega
    simp only [uneven, longer, false_and, true_and, false_or]
  · next notOdd =>
    have even : (cs.flatMap String.utf8EncodeChar).length % 2 = 0 := by omega
    have longer : ¬ ((cs.flatMap String.utf8EncodeChar).length + 1) % 2 = 0 := by omega
    simp only [even, longer, false_and, true_and, or_false]

theorem spellsAll_iff_whole {cs : List Char} {b : Bytes} :
    (∃ zero ∈ [[], ['0']], SpellsAll (zero ++ cs) b) ↔
      ∃ ds, List.Forall₂ Spells cs ds ∧ digits b = whole ds := by
  have even : (digits b).length % 2 = 0 := by rw [length_digits]; omega
  simp only [List.mem_pair, exists_eq_or_imp, exists_eq_left, List.nil_append,
    List.singleton_append, spellsAll_iff]
  constructor
  · rintro (spelled | spelled)
    · exact ⟨digits b, spelled, (whole_of_even even).symm⟩
    · obtain ⟨d, ds, zero, rest, same⟩ := List.forall₂_cons_left_iff.1 spelled
      obtain rfl : (0 : Fin 16) = d := Spells.eq (.inl rfl) zero
      rw [same, List.length_cons] at even
      exact ⟨ds, rest, by rw [same, whole, if_pos (by omega)]⟩
  · rintro ⟨ds, spelled, same⟩
    rw [same]
    unfold whole
    split
    · exact .inr (.cons (.inl rfl) spelled)
    · exact .inl spelled

def marks : List (List Char) := [[], ['0', 'x'], ['0', 'X']]

/-- The text is the digits, each in either case, behind one mark or none. -/
def Writes (s : String) (ds : List (Fin 16)) : Prop :=
  ∃ mark ∈ marks, ∃ cs, s.toList = mark ++ cs ∧ List.Forall₂ Spells cs ds

theorem exists_mark (s : String) : ∃ mark ∈ marks, s.toList = mark ++ (dropMark s).toList := by
  rw [dropMark, String.toList_ofList]
  unfold dropMarkChars
  split
  · next rest chars => exact ⟨['0', 'x'], by simp [marks], chars⟩
  · next rest chars => exact ⟨['0', 'X'], by simp [marks], chars⟩
  · exact ⟨[], by simp [marks], rfl⟩

theorem dropMark_of_spelled {s : String} {mark cs : List Char} {ds : List (Fin 16)}
    (known : mark ∈ marks) (h : List.Forall₂ Spells cs ds) (same : s.toList = mark ++ cs) :
    (dropMark s).toList = cs := by
  have isDigit := forall_isDigit_iff.2 ⟨ds, h⟩
  rw [dropMark, String.toList_ofList, same]
  simp only [marks, List.mem_cons, List.not_mem_nil, or_false] at known
  obtain rfl | rfl | rfl := known
  · rw [List.nil_append]
    unfold dropMarkChars
    split
    · exact absurd (isDigit 'x' (by simp)) (by decide)
    · exact absurd (isDigit 'X' (by simp)) (by decide)
    · rfl
  · rfl
  · rfl

theorem writes_iff {s : String} {ds : List (Fin 16)} :
    Writes s ds ↔ List.Forall₂ Spells (dropMark s).toList ds := by
  constructor
  · rintro ⟨mark, known, cs, same, h⟩
    rwa [dropMark_of_spelled known h same]
  · intro h
    obtain ⟨mark, known, same⟩ := exists_mark s
    exact ⟨mark, known, _, same, h⟩

theorem decode_eq_ok_iff {s : String} {b : Bytes} :
    decode s = .ok b ↔ ∃ ds, Writes s ds ∧ digits b = whole ds := by
  simp only [writes_iff, ← spellsAll_iff_whole]
  exact decodeDigits_ofText_eq_ok_iff

theorem parse_eq_ok_iff {s : String} {b : Bytes} : parse s = .ok b ↔ decode s = .ok b := by
  rw [parse]
  cases decode s <;> simp [Except.mapError]

theorem digitChar_injective : Function.Injective digitChar := by
  intro d e same
  have spells : Spells (digitChar e) d := .inl same.symm
  exact spells.eq (.inl rfl)

theorem writes_encode (b : Bytes) : Writes (encode b) (digits b) :=
  ⟨[], by simp [marks], encodeChars b, by rw [encode, String.toList_ofList]; rfl,
    spellsAll_iff.1 (spellsAll_encodeChars b)⟩

theorem writes_encodePrefixed (b : Bytes) : Writes (encodePrefixed b) (digits b) :=
  ⟨['0', 'x'], by simp [marks], encodeChars b, by rw [encodePrefixed, String.toList_ofList]; rfl,
    spellsAll_iff.1 (spellsAll_encodeChars b)⟩

theorem decode_of_writes {s : String} {b : Bytes} (h : Writes s (digits b)) : decode s = .ok b :=
  decode_eq_ok_iff.2 ⟨digits b, h, (whole_of_even (by rw [length_digits]; omega)).symm⟩

theorem exists_decode {s : String} {ds : List (Fin 16)} (h : Writes s ds) :
    ∃ b, decode s = .ok b ∧ digits b = whole ds := by
  obtain ⟨b, same⟩ := exists_digits_eq_whole ds
  exact ⟨b, decode_eq_ok_iff.2 ⟨ds, h, same⟩, same⟩

theorem map_whole (ds : List (Fin 16)) : (whole ds).map digitChar =
    (if ds.length % 2 = 1 then ['0'] else []) ++ ds.map digitChar := by
  unfold whole
  split
  · rfl
  · rfl

theorem encode_eq_iff {s : String} {ds : List (Fin 16)} {b : Bytes} (h : Writes s ds) :
    (encode b).toList =
        (if ds.length % 2 = 1 then ['0'] else []) ++ (dropMark s).toList.map Char.toLower ↔
      digits b = whole ds := by
  rw [encode, String.toList_ofList, encodeChars_eq, map_toLower (writes_iff.1 h), ← map_whole]
  exact (List.map_injective_iff.2 digitChar_injective).eq_iff

/-- Reading undoes writing. And a text is read if it consists of digits behind one mark or none,
and only then; there are as many bytes as the digits need, they are the number that the digits
denote, and written again they are the same digits in lowercase, with a zero in front of an odd
count. -/
theorem texts_of_bytes :
    (∀ b : Bytes, parse (encode b) = .ok b ∧ parse (encodePrefixed b) = .ok b) ∧
    ∀ s : String, ((∃ b, parse s = .ok b) ↔ ∀ c ∈ (dropMark s).toList, IsDigit c) ∧
      ∀ b : Bytes, parse s = .ok b ↔ ∃ ds, Writes s ds ∧
        b.length = (ds.length + 1) / 2 ∧ b.toNat = value ds ∧
        (encode b).toList =
          (if ds.length % 2 = 1 then ['0'] else []) ++ (dropMark s).toList.map Char.toLower := by
  simp only [parse_eq_ok_iff]
  refine ⟨fun b => ⟨decode_of_writes (writes_encode b), decode_of_writes (writes_encodePrefixed b)⟩,
    fun s => ⟨?_, fun b => ?_⟩⟩
  · rw [forall_isDigit_iff]
    constructor
    · rintro ⟨b, decoded⟩
      obtain ⟨ds, writes, _⟩ := decode_eq_ok_iff.1 decoded
      exact ⟨ds, writes_iff.1 writes⟩
    · rintro ⟨ds, spelled⟩
      obtain ⟨b, decoded, _⟩ := exists_decode (writes_iff.2 spelled)
      exact ⟨b, decoded⟩
  · rw [decode_eq_ok_iff]
    constructor
    · rintro ⟨ds, writes, same⟩
      exact ⟨ds, writes, length_of_digits_eq same, toNat_of_digits_eq same,
        (encode_eq_iff writes).2 same⟩
    · rintro ⟨ds, writes, _, _, text⟩
      exact ⟨ds, writes, (encode_eq_iff writes).1 text⟩

example : parse "0Xabc" = .ok [0x0a, 0xbc] := rfl

end Hex

end VenueSigner
