import VenueSigner.Market.Level
import VenueSigner.Proofs.DecimalExact
import VenueSigner.Proofs.ReadBack
/-!
The text of a decimal is read back, with as many fraction digits as it was written with. All that is
lost is the minus sign that a zero can carry.
-/

namespace VenueSigner

namespace Decimal

open Digits (toChars)
open Positional (value)

def plain (d : Decimal) : Decimal :=
  ⟨d.negative && d.mantissa != 0, d.mantissa, d.scale, d.mantissa_lt, d.scale_le⟩

theorem toRat_plain (d : Decimal) : d.plain.toRat = d.toRat := by
  rw [toRat, toRat, signed_eq, signed_eq, plain, withSign_and_ne_zero]

theorem plain_eq_self_iff (d : Decimal) : d.plain = d ↔ d.Plain := by
  obtain ⟨negative, mantissa, scale, small, short⟩ := d
  cases negative <;> simp [plain, Plain]

theorem ofParts?_eq_plain (d : Decimal) :
    ofParts? d.negative d.mantissa d.scale = some d.plain :=
  dif_pos ⟨d.mantissa_lt, d.scale_le⟩

theorem le_length_paddedDigits (width n : ℕ) : width ≤ (paddedDigits width n).length := by
  simp only [paddedDigits, List.length_append, List.length_replicate]
  omega

theorem value_paddedDigits (width n : ℕ) : value (paddedDigits width n) = n := by
  rw [paddedDigits, Positional.value_zeros, Digits.value_ofNat]

theorem exists_chars_eq (d : Decimal) : ∃ whole fraction : List Digit, whole ≠ [] ∧
    fraction.length = d.scale ∧ value (whole ++ fraction) = d.mantissa ∧
    d.chars = (if d.negative then ['-'] else []) ++ toChars whole ++
      if d.scale = 0 then [] else '.' :: toChars fraction := by
  have enough := le_length_paddedDigits (d.scale + 1) d.mantissa
  have written := value_paddedDigits (d.scale + 1) d.mantissa
  unfold chars
  generalize paddedDigits (d.scale + 1) d.mantissa = ds at enough written
  refine ⟨ds.take (ds.length - d.scale), ds.drop (ds.length - d.scale), ?_, ?_, ?_, ?_⟩
  · rw [ne_eq, List.take_eq_nil_iff, not_or, ← List.length_eq_zero_iff]
    omega
  · rw [List.length_drop]
    omega
  · rw [List.take_append_drop, written]
  · by_cases none : d.scale = 0
    · simp only [none, if_true, List.append_nil]
    · simp only [none, if_false]

namespace Reading

def add (r : Reading) (d : Digit) : Reading :=
  { r with
    mantissa := r.mantissa * 10 + d.val
    scale := if r.pointed then r.scale + 1 else r.scale
    started := true }

def addAll (r : Reading) (ds : List Digit) : Reading :=
  ds.foldl add r

theorem addAll_eq (r : Reading) (ds : List Digit) : r.addAll ds =
    { mantissa := ds.foldl (fun n d => n * 10 + d.val) r.mantissa
      scale := if r.pointed then r.scale + ds.length else r.scale
      pointed := r.pointed
      started := r.started || !ds.isEmpty } := by
  induction ds generalizing r with
  | nil => simp [addAll]
  | cons d ds ih =>
    rw [addAll, List.foldl_cons, ← addAll, ih]
    cases pointed : r.pointed <;> simp [add, pointed, Nat.add_assoc, Nat.add_comm]

theorem mantissa_le_addAll (r : Reading) (ds : List Digit) :
    r.mantissa ≤ (r.addAll ds).mantissa := by
  induction ds generalizing r with
  | nil => exact Nat.le_refl _
  | cons d ds ih =>
    have first : r.mantissa ≤ (r.add d).mantissa := by
      simp only [add]
      omega
    exact first.trans (ih (r.add d))

theorem addAll_start {whole : List Digit} (some : whole ≠ []) :
    start.addAll whole = ⟨value whole, 0, false, true⟩ := by
  rw [addAll_eq]
  simp [start, value, some]

theorem addAll_pointed (whole fraction : List Digit) :
    (⟨value whole, 0, true, true⟩ : Reading).addAll fraction =
      ⟨value (whole ++ fraction), fraction.length, true, true⟩ := by
  rw [addAll_eq]
  simp [value]

end Reading

/-- Digits that there is room for are taken one after the other. -/
theorem readPlain?_addAll {negative : Bool} {r : Reading} {ds : List Digit} (rest : List Char)
    (fits : (r.addAll ds).mantissa < limit)
    (room : r.pointed = true → r.scale + ds.length ≤ maxScale) :
    readPlain? negative r (toChars ds ++ rest) = readPlain? negative (r.addAll ds) rest := by
  -- the reading is what the digits go into, so each one leaves another to go on with
  induction ds generalizing r with
  | nil => rfl
  | cons d ds ih =>
    have unfilled : r.isFull = false := by
      cases pointed : r.pointed with
      | false => simp [Reading.isFull, pointed]
      | true =>
        have left := room pointed
        simp only [List.length_cons] at left
        simp only [Reading.isFull, pointed, Bool.true_and, decide_eq_false_iff_not]
        omega
    have small : r.mantissa * 10 + d.val < limit :=
      Nat.lt_of_le_of_lt ((r.add d).mantissa_le_addAll ds) fits
    have next := ih (r := r.add d) fits fun pointed => by
      have left := room pointed
      simp only [List.length_cons] at left
      simp only [Reading.add] at pointed ⊢
      rw [if_pos pointed]
      omega
    have step : readPlain? negative r (d.toChar :: (toChars ds ++ rest)) =
        readPlain? negative (r.add d) (toChars ds ++ rest) := by
      simp only [readPlain?, unfilled, Digit.ofChar?_toChar, if_pos small]
      rfl
    exact step.trans next

theorem plainOfChars?_digits {ds : List Digit} (negative : Bool) (some : ds ≠ [])
    (rest : List Char) :
    plainOfChars? ((if negative then ['-'] else []) ++ toChars ds ++ rest) =
      readPlain? negative .start (toChars ds ++ rest) := by
  obtain ⟨d, ds, rfl⟩ := List.exists_cons_of_ne_nil some
  cases negative with
  | true => rfl
  | false =>
    have digit := d.toChar_range
    have minus : d.toChar ≠ '-' := fun same => by simp [same] at digit
    have plus : d.toChar ≠ '+' := fun same => by simp [same] at digit
    change plainOfChars? (d.toChar :: (toChars ds ++ rest)) = _
    unfold plainOfChars?
    split
    · next same => exact absurd (List.cons.inj same).1 minus
    · next same => exact absurd (List.cons.inj same).1 plus
    · rfl

theorem readPlain?_whole {whole : List Digit} (negative : Bool) (some : whole ≠ [])
    (fits : value whole < limit) (rest : List Char) :
    readPlain? negative .start (toChars whole ++ rest) =
      readPlain? negative ⟨value whole, 0, false, true⟩ rest := by
  rw [readPlain?_addAll, Reading.addAll_start some]
  · rwa [Reading.addAll_start some]
  · intro pointed
    contradiction

theorem readPlain?_fraction {whole fraction : List Digit} (negative : Bool)
    (fits : value (whole ++ fraction) < limit) (short : fraction.length ≤ maxScale) :
    readPlain? negative ⟨value whole, 0, false, true⟩ ('.' :: toChars fraction) =
      ofParts? negative (value (whole ++ fraction)) fraction.length := by
  have point : readPlain? negative ⟨value whole, 0, false, true⟩ ('.' :: toChars fraction) =
      readPlain? negative ⟨value whole, 0, true, true⟩ (toChars fraction ++ []) := by
    rw [List.append_nil]
    rfl
  rw [point, readPlain?_addAll, Reading.addAll_pointed]
  · rfl
  · rwa [Reading.addAll_pointed]
  · intro _
    rwa [Nat.zero_add]

theorem value_le_append (whole fraction : List Digit) :
    value whole ≤ value (whole ++ fraction) := by
  have more := Reading.mantissa_le_addAll ⟨value whole, 0, true, true⟩ fraction
  rwa [Reading.addAll_pointed] at more

theorem plainOfChars?_chars (d : Decimal) : plainOfChars? d.chars = some d.plain := by
  obtain ⟨whole, fraction, nonempty, places, written, chars⟩ := d.exists_chars_eq
  have fits : value (whole ++ fraction) < limit := written ▸ d.mantissa_lt
  have first := Nat.lt_of_le_of_lt (value_le_append whole fraction) fits
  rw [chars, plainOfChars?_digits d.negative nonempty, readPlain?_whole _ nonempty first]
  by_cases none : d.scale = 0
  · rw [if_pos none]
    rw [none, List.length_eq_zero_iff] at places
    rw [places, List.append_nil] at written
    rw [← ofParts?_eq_plain, none, ← written]
    rfl
  · rw [if_neg none, readPlain?_fraction d.negative fits (places ▸ d.scale_le), written, places,
      ofParts?_eq_plain]

/-- The text of a decimal is read back. -/
theorem parse?_text (d : Decimal) : parse? d.text = some d.plain := by
  rw [parse?, text, String.toList_ofList, d.plainOfChars?_chars]
  rfl

theorem ofTree?_toTree (d : Decimal) : ofTree? d.toTree = some d.plain :=
  d.parse?_text

end Decimal

end VenueSigner
