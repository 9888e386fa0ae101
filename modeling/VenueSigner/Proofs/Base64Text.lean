import Mathlib.Data.List.Basic
import Mathlib.Tactic.SplitIfs
import VenueSigner.Proofs.ReadBack
/-!
Base64 as a numeral. The symbols of a byte string are the digits to the base sixty-four of its
number, with zero bits behind it until the last digit is full; fillers make their count a multiple
of four. A text is read if it is what some byte string is written as, and only then.
-/

namespace VenueSigner.Base64

open Positional (value)

def sextet (n : Nat) : Fin 64 :=
  ⟨n % 64, Nat.mod_lt n (by decide)⟩

/-- The sextets of a byte string, the last one filled up with zero bits. -/
def sextets : Bytes → List (Fin 64)
  | [] => []
  | [x] => [sextet (x.toNat / 4), sextet (x.toNat % 4 * 16)]
  | [x, y] =>
    [sextet (x.toNat / 4), sextet (x.toNat % 4 * 16 + y.toNat / 16), sextet (y.toNat % 16 * 4)]
  | x :: y :: z :: rest =>
    sextet (x.toNat / 4) :: sextet (x.toNat % 4 * 16 + y.toNat / 16) ::
      sextet (y.toNat % 16 * 4 + z.toNat / 64) :: sextet (z.toNat % 64) :: sextets rest

def fillers (length : Nat) : Nat :=
  (3 - length % 3) % 3

theorem sextets_eq_nil_iff {b : Bytes} : sextets b = [] ↔ b = [] := by
  constructor
  · intro h
    match b with
    | [] => rfl
    | [_] | [_, _] | _ :: _ :: _ :: _ => simp [sextets] at h
  · rintro rfl
    rfl

theorem fillers_add_three (length : Nat) : fillers (length + 3) = fillers length := by
  simp only [fillers, Nat.add_mod_right]

theorem length_sextets (b : Bytes) : (sextets b).length = (4 * b.length + 2) / 3 := by
  induction b using sextets.induct with
  | case1 => rfl
  | case2 x => simp [sextets]
  | case3 x y => simp [sextets]
  | case4 x y z rest ih =>
    simp only [sextets, List.length_cons, ih]
    omega

theorem val_sextet {n : Nat} (h : n < 64) : (sextet n).val = n :=
  Nat.mod_eq_of_lt h

/-- The bits of the sextets are those of the bytes, and two zeros for each filler. -/
theorem value_sextets (b : Bytes) : value (sextets b) = b.toNat * 4 ^ fillers b.length := by
  have general (n : Nat) : (sextets b).foldl (fun n d => n * 64 + d.val) n =
      b.foldl (fun n x => n * 256 + x.toNat) n * 4 ^ fillers b.length := by
    induction b using sextets.induct generalizing n with
    | case1 => simp [sextets, fillers]
    | case2 x =>
      have small : x.toNat < 256 := x.toNat_lt
      simp (disch := omega) only [sextets, List.foldl_cons, List.foldl_nil, val_sextet]
      change _ = (n * 256 + x.toNat) * 16
      omega
    | case3 x y =>
      have small : x.toNat < 256 ∧ y.toNat < 256 := ⟨x.toNat_lt, y.toNat_lt⟩
      simp (disch := omega) only [sextets, List.foldl_cons, List.foldl_nil, val_sextet]
      change _ = ((n * 256 + x.toNat) * 256 + y.toNat) * 4
      omega
    | case4 x y z rest ih =>
      have small : x.toNat < 256 ∧ y.toNat < 256 ∧ z.toNat < 256 :=
        ⟨x.toNat_lt, y.toNat_lt, z.toNat_lt⟩
      simp (disch := omega) only [sextets, List.foldl_cons, val_sextet, ih, List.length_cons,
        fillers_add_three]
      congr 2
      omega
  rw [Bytes.toNat_eq_foldl]
  exact general 0

theorem encode_eq (alphabet : Alphabet) (b : Bytes) :
    encode alphabet b = (sextets b).map (fun d => symbol alphabet d.val) ++
      List.replicate (fillers b.length) filler := by
  induction b using sextets.induct with
  | case1 => rfl
  | case2 x =>
    have small : x.toNat < 256 := x.toNat_lt
    simp (disch := omega) only [encode, sextets, List.map_cons, List.map_nil, val_sextet]
    rfl
  | case3 x y =>
    have small : x.toNat < 256 ∧ y.toNat < 256 := ⟨x.toNat_lt, y.toNat_lt⟩
    simp (disch := omega) only [encode, sextets, List.map_cons, List.map_nil, val_sextet]
    rfl
  | case4 x y z rest ih =>
    have small : x.toNat < 256 ∧ y.toNat < 256 ∧ z.toNat < 256 :=
      ⟨x.toNat_lt, y.toNat_lt, z.toNat_lt⟩
    simp (disch := omega) only [encode, sextets, List.map_cons, List.cons_append, val_sextet, ih,
      List.length_cons, fillers_add_three]

theorem length_encode (alphabet : Alphabet) (b : Bytes) :
    (encode alphabet b).length = 4 * ((b.length + 2) / 3) := by
  rw [encode_eq, List.length_append, List.length_map, length_sextets, List.length_replicate,
    fillers]
  omega

theorem encode_cons_cons_cons (alphabet : Alphabet) (x y z : UInt8) (rest : Bytes) :
    encode alphabet (x :: y :: z :: rest) = encode alphabet [x, y, z] ++ encode alphabet rest :=
  rfl

def letter (alphabet : Alphabet) (d : Fin 64) : Char :=
  Char.ofNat (symbol alphabet d.val).toNat

example : (List.finRange 64).map (letter standard) =
    "ABCDEFGHIJKLMNOPQRSTUVWXYZabcdefghijklmnopqrstuvwxyz0123456789+/".toList := by decide

theorem toList_encodeText (alphabet : Alphabet) (b : Bytes) : (encodeText alphabet b).toList =
    (sextets b).map (letter alphabet) ++ List.replicate (fillers b.length) '=' := by
  rw [encodeText, String.toList_ofList, encode_eq, List.map_append, List.map_map,
    List.map_replicate]
  rfl

/-- An alphabet in which each sextet has a symbol of its own, an ASCII character that is not the
filler. -/
structure Alphabet.Faithful (alphabet : Alphabet) : Prop where
  sextet?_symbol : ∀ n < 64, sextet? alphabet (symbol alphabet n) = some n
  symbol_of_sextet? : ∀ x n, sextet? alphabet x = some n → n < 64 ∧ symbol alphabet n = x
  symbol_lt : ∀ n < 64, (symbol alphabet n).toNat < 128
  symbol_ne_filler : ∀ n < 64, symbol alphabet n ≠ filler

theorem forall_byte {p : UInt8 → Prop} (all : ∀ k : Fin 256, p (UInt8.ofNat k.val)) (x : UInt8) :
    p x := by
  have found := all ⟨x.toNat, x.toNat_lt⟩
  rwa [UInt8.ofNat_toNat] at found

theorem faithful_standard : standard.Faithful where
  sextet?_symbol := by decide
  symbol_of_sextet? := forall_byte (p := fun x => ∀ n ∈ sextet? standard x,
    n < 64 ∧ symbol standard n = x) (by decide +kernel)
  symbol_lt := by decide
  symbol_ne_filler := by decide

theorem faithful_urlSafe : urlSafe.Faithful where
  sextet?_symbol := by decide
  symbol_of_sextet? := forall_byte (p := fun x => ∀ n ∈ sextet? urlSafe x,
    n < 64 ∧ symbol urlSafe n = x) (by decide +kernel)
  symbol_lt := by decide
  symbol_ne_filler := by decide

section Faithful

variable {alphabet : Alphabet} (faithful : alphabet.Faithful) {offset : Nat} {b : Bytes}

include faithful

theorem sextetAt_eq_ok_iff {x : UInt8} {n : Nat} :
    sextetAt alphabet offset x = .ok n ↔ n < 64 ∧ symbol alphabet n = x := by
  constructor
  · intro h
    unfold sextetAt at h
    split at h
    · next m found =>
      obtain rfl := Except.ok.inj h
      exact faithful.symbol_of_sextet? x m found
    · contradiction
  · rintro ⟨small, rfl⟩
    rw [sextetAt, faithful.sextet?_symbol n small]

theorem decodeTwo_eq_ok_iff {p q : UInt8} : decodeTwo alphabet offset p q = .ok b ↔
    ∃ x, b = [x] ∧ encode alphabet [x] = [p, q, filler, filler] := by
  simp only [decodeTwo, Result.bind_eq_ok, sextetAt_eq_ok_iff faithful]
  constructor
  · rintro ⟨m, ⟨hm, rfl⟩, n, ⟨hn, rfl⟩, h⟩
    split at h
    · next spare =>
      obtain rfl := Except.ok.inj h
      have first : (m * 4 + n / 16) / 4 = m := by omega
      have second : (m * 4 + n / 16) % 4 * 16 = n := by omega
      refine ⟨_, rfl, ?_⟩
      simp (disch := omega) only [encode, UInt8.toNat_ofNat', Nat.mod_eq_of_lt, first, second]
    · contradiction
  · rintro ⟨x, rfl, h⟩
    have small : x.toNat < 256 := x.toNat_lt
    simp only [encode, List.cons.injEq, and_true] at h
    obtain ⟨rfl, rfl⟩ := h
    have whole : x.toNat / 4 * 4 + x.toNat % 4 * 16 / 16 = x.toNat := by omega
    refine ⟨_, ⟨by omega, rfl⟩, _, ⟨by omega, rfl⟩, ?_⟩
    rw [if_pos (by omega), whole, UInt8.ofNat_toNat]
    rfl

theorem decodeThree_eq_ok_iff {p q r : UInt8} : decodeThree alphabet offset p q r = .ok b ↔
    ∃ x y, b = [x, y] ∧ encode alphabet [x, y] = [p, q, r, filler] := by
  simp only [decodeThree, Result.bind_eq_ok, sextetAt_eq_ok_iff faithful]
  constructor
  · rintro ⟨m, ⟨hm, rfl⟩, n, ⟨hn, rfl⟩, k, ⟨hk, rfl⟩, h⟩
    split at h
    · next spare =>
      obtain rfl := Except.ok.inj h
      have first : (m * 4 + n / 16) / 4 = m := by omega
      have second : (m * 4 + n / 16) % 4 * 16 + (n % 16 * 16 + k / 4) / 16 = n := by omega
      have third : (n % 16 * 16 + k / 4) % 16 * 4 = k := by omega
      refine ⟨_, _, rfl, ?_⟩
      simp (disch := omega) only [encode, UInt8.toNat_ofNat', Nat.mod_eq_of_lt, first, second,
        third]
    · contradiction
  · rintro ⟨x, y, rfl, h⟩
    have small : x.toNat < 256 ∧ y.toNat < 256 := ⟨x.toNat_lt, y.toNat_lt⟩
    simp only [encode, List.cons.injEq, and_true] at h
    obtain ⟨rfl, rfl, rfl⟩ := h
    have one : x.toNat / 4 * 4 + (x.toNat % 4 * 16 + y.toNat / 16) / 16 = x.toNat := by omega
    have two : (x.toNat % 4 * 16 + y.toNat / 16) % 16 * 16 + y.toNat % 16 * 4 / 4 = y.toNat := by
      omega
    refine ⟨_, ⟨by omega, rfl⟩, _, ⟨by omega, rfl⟩, _, ⟨by omega, rfl⟩, ?_⟩
    rw [if_pos (by omega), one, two, UInt8.ofNat_toNat, UInt8.ofNat_toNat]
    rfl

theorem decodeFour_eq_ok_iff {p q r s : UInt8} : decodeFour alphabet offset p q r s = .ok b ↔
    ∃ x y z, b = [x, y, z] ∧ encode alphabet [x, y, z] = [p, q, r, s] := by
  simp only [decodeFour, Result.bind_eq_ok, sextetAt_eq_ok_iff faithful]
  constructor
  · rintro ⟨m, ⟨hm, rfl⟩, n, ⟨hn, rfl⟩, k, ⟨hk, rfl⟩, l, ⟨hl, rfl⟩, h⟩
    obtain rfl := Except.ok.inj h
    have first : (m * 4 + n / 16) / 4 = m := by omega
    have second : (m * 4 + n / 16) % 4 * 16 + (n % 16 * 16 + k / 4) / 16 = n := by omega
    have third : (n % 16 * 16 + k / 4) % 16 * 4 + (k % 4 * 64 + l) / 64 = k := by omega
    have fourth : (k % 4 * 64 + l) % 64 = l := by omega
    refine ⟨_, _, _, rfl, ?_⟩
    simp (disch := omega) only [encode, UInt8.toNat_ofNat', Nat.mod_eq_of_lt, first, second,
      third, fourth]
  · rintro ⟨x, y, z, rfl, h⟩
    have small : x.toNat < 256 ∧ y.toNat < 256 ∧ z.toNat < 256 :=
      ⟨x.toNat_lt, y.toNat_lt, z.toNat_lt⟩
    simp only [encode, List.cons.injEq, and_true] at h
    obtain ⟨rfl, rfl, rfl, rfl⟩ := h
    have one : x.toNat / 4 * 4 + (x.toNat % 4 * 16 + y.toNat / 16) / 16 = x.toNat := by omega
    have two : (x.toNat % 4 * 16 + y.toNat / 16) % 16 * 16 +
        (y.toNat % 16 * 4 + z.toNat / 64) / 4 = y.toNat := by omega
    have three : (y.toNat % 16 * 4 + z.toNat / 64) % 4 * 64 + z.toNat % 64 = z.toNat := by omega
    refine ⟨_, ⟨by omega, rfl⟩, _, ⟨by omega, rfl⟩, _, ⟨by omega, rfl⟩, _, ⟨by omega, rfl⟩, ?_⟩
    rw [one, two, three, UInt8.ofNat_toNat, UInt8.ofNat_toNat, UInt8.ofNat_toNat]
    rfl

theorem exists_sextetAt (offset : Nat) {p q : UInt8} {tail : Bytes} (some : b ≠ [])
    (h : encode alphabet b = p :: q :: tail) :
    (∃ m, sextetAt alphabet offset p = .ok m) ∧
      ∃ n, sextetAt alphabet (offset + 1) q = .ok n := by
  simp only [sextetAt_eq_ok_iff faithful]
  match b with
  | [x] =>
    have small : x.toNat < 256 := x.toNat_lt
    simp only [encode, List.cons.injEq] at h
    exact ⟨⟨_, by omega, h.1⟩, _, by omega, h.2.1⟩
  | [x, y] | x :: y :: z :: rest =>
    have small : x.toNat < 256 ∧ y.toNat < 256 := ⟨x.toNat_lt, y.toNat_lt⟩
    simp only [encode, List.cons.injEq] at h
    exact ⟨⟨_, by omega, h.1⟩, _, by omega, h.2.1⟩

theorem decodeLast_eq_ok_iff {p q r s : UInt8} : decodeLast alphabet offset p q r s = .ok b ↔
    encode alphabet b = [p, q, r, s] := by
  constructor
  · intro h
    simp only [decodeLast, Result.bind_eq_ok] at h
    obtain ⟨_, _, _, _, h⟩ := h
    split_ifs at h with third fourth fourth
    · obtain ⟨x, rfl, written⟩ := (decodeTwo_eq_ok_iff faithful).1 h
      rw [written, third, fourth]
    · obtain ⟨x, y, rfl, written⟩ := (decodeThree_eq_ok_iff faithful).1 h
      rw [written, fourth]
    · obtain ⟨x, y, z, rfl, written⟩ := (decodeFour_eq_ok_iff faithful).1 h
      exact written
  · intro h
    have some : b ≠ [] := by
      rintro rfl
      contradiction
    obtain ⟨⟨m, first⟩, n, second⟩ := exists_sextetAt faithful offset some h
    simp only [decodeLast, Result.bind_eq_ok]
    refine ⟨m, first, n, second, ?_⟩
    have count := congrArg List.length h
    rw [length_encode] at count
    -- the fillers tell one byte from two and from three
    match b with
    | [x] =>
      obtain ⟨_, _, rfl, rfl⟩ : _ ∧ _ ∧ filler = r ∧ filler = s := by simpa [encode] using h
      rw [if_pos rfl, if_pos rfl]
      exact (decodeTwo_eq_ok_iff faithful).2 ⟨x, rfl, h⟩
    | [x, y] =>
      have noFiller := faithful.symbol_ne_filler (y.toNat % 16 * 4) (by omega)
      obtain ⟨_, _, rfl, rfl⟩ : _ ∧ _ ∧ symbol alphabet (y.toNat % 16 * 4) = r ∧ filler = s := by
        simpa [encode] using h
      rw [if_neg noFiller, if_pos rfl]
      exact (decodeThree_eq_ok_iff faithful).2 ⟨x, y, rfl, h⟩
    | [x, y, z] =>
      have small : z.toNat < 256 := z.toNat_lt
      have noFiller := faithful.symbol_ne_filler (y.toNat % 16 * 4 + z.toNat / 64) (by omega)
      have noFiller' := faithful.symbol_ne_filler (z.toNat % 64) (by omega)
      obtain ⟨_, _, rfl, rfl⟩ : _ ∧ _ ∧ symbol alphabet (y.toNat % 16 * 4 + z.toNat / 64) = r ∧
          symbol alphabet (z.toNat % 64) = s := by simpa [encode] using h
      rw [if_neg noFiller, if_neg noFiller']
      exact (decodeFour_eq_ok_iff faithful).2 ⟨x, y, z, rfl, h⟩
    | [] => contradiction
    | _ :: _ :: _ :: _ :: _ =>
      simp only [List.length_cons, List.length_nil] at count
      omega

theorem decodeFrom_eq_ok_iff {text : Bytes} :
    decodeFrom alphabet offset text = .ok b ↔ encode alphabet b = text := by
  -- the recursion takes four symbols at a time, which are three bytes unless they are the last
  induction offset, text using decodeFrom.induct generalizing b with
  | case1 offset =>
    rw [decodeFrom, encode_eq, List.append_eq_nil_iff, List.map_eq_nil_iff, sextets_eq_nil_iff]
    constructor
    · intro h
      obtain rfl := Except.ok.inj h
      exact ⟨rfl, rfl⟩
    · rintro ⟨rfl, _⟩
      rfl
  | case2 offset p q r s =>
    rw [decodeFrom]
    exact decodeLast_eq_ok_iff faithful
  | case3 offset p q r s rest more ih =>
    rw [decodeFrom.eq_3 _ _ _ _ _ _ _ more]
    simp only [Result.bind_eq_ok, decodeFour_eq_ok_iff faithful, ih]
    constructor
    · rintro ⟨_, ⟨x, y, z, rfl, front⟩, back, rfl, same⟩
      obtain rfl := Except.ok.inj same
      exact congrArg (· ++ encode alphabet back) front
    · intro h
      have count := congrArg List.length h
      have left := List.length_pos_iff.2 more
      rw [length_encode] at count
      simp only [List.length_cons] at count
      match b with
      | [] | [_] | [_, _] =>
        simp only [List.length_cons, List.length_nil] at count
        omega
      | x :: y :: z :: back =>
        rw [encode_cons_cons_cons] at h
        obtain ⟨front, same⟩ : encode alphabet [x, y, z] = [p, q, r, s] ∧
            encode alphabet back = rest := List.append_inj h rfl
        exact ⟨_, ⟨x, y, z, rfl, front⟩, back, same, rfl⟩
  | case4 offset x rest notLast notMore =>
    rw [decodeFrom.eq_4 _ _ _ _ notLast notMore]
    refine ⟨fun h => by contradiction, fun h => ?_⟩
    have count := congrArg List.length h
    rw [length_encode] at count
    match rest with
    | [] | [_] | [_, _] =>
      simp only [List.length_cons, List.length_nil] at count
      omega
    | q :: r :: s :: rest => exact absurd rfl (notMore q r s rest)

/-- A text is read as the bytes that are written as it. -/
theorem decode_eq_ok_iff {text : Bytes} : decode alphabet text = .ok b ↔ encode alphabet b = text :=
  decodeFrom_eq_ok_iff faithful

theorem decode_encode (b : Bytes) : decode alphabet (encode alphabet b) = .ok b :=
  (decode_eq_ok_iff faithful).2 rfl

theorem encode_injective {c : Bytes} (h : encode alphabet b = encode alphabet c) : b = c := by
  have read := decode_encode faithful b
  rw [h, decode_encode faithful c] at read
  exact (Except.ok.inj read).symm

theorem count_filler (b : Bytes) : (encode alphabet b).count filler = fillers b.length := by
  have symbols : ((sextets b).map fun d => symbol alphabet d.val).count filler = 0 := by
    refine List.count_eq_zero.2 fun h => ?_
    obtain ⟨d, _, same⟩ := List.mem_map.1 h
    exact faithful.symbol_ne_filler d.val d.isLt same
  rw [encode_eq, List.count_append, symbols, List.count_replicate_self, Nat.zero_add]

theorem lt_of_mem_encode {x : UInt8} (h : x ∈ encode alphabet b) : x.toNat < 128 := by
  rw [encode_eq] at h
  obtain symbols | last := List.mem_append.1 h
  · obtain ⟨d, _, rfl⟩ := List.mem_map.1 symbols
    exact faithful.symbol_lt d.val d.isLt
  · rw [List.eq_of_mem_replicate last]
    decide

theorem ofText_encodeText (b : Bytes) :
    Bytes.ofText (encodeText alphabet b) = encode alphabet b := by
  have ascii : ∀ c ∈ (encode alphabet b).map fun x => Char.ofNat x.toNat, c.toNat < 128 := by
    rw [List.forall_mem_map]
    intro x h
    rw [toNat_char_of_ascii (lt_of_mem_encode faithful h)]
    exact lt_of_mem_encode faithful h
  have back : ∀ x ∈ encode alphabet b, UInt8.ofNat (Char.ofNat x.toNat).toNat = id x := by
    intro x h
    rw [toNat_char_of_ascii (lt_of_mem_encode faithful h), UInt8.ofNat_toNat]
    rfl
  rw [encodeText, Bytes.ofText, String.toList_ofList, flatMap_utf8EncodeChar ascii, List.map_map]
  exact (List.map_congr_left back).trans (List.map_id _)

end Faithful

end VenueSigner.Base64
