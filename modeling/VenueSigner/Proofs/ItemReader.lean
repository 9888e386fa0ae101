import Mathlib.Data.List.Induction
import VenueSigner.Proofs.Payload
/-!
Trees of items read back by a strict reader, which takes lengths and single bytes in their shortest
form only. Each tree has one encoding, the reader finds its end whatever follows, and it accepts
nothing else.
-/

namespace VenueSigner

namespace Bytes

theorem length_shortest_le_of_lt {n width : Nat} (h : n < 256 ^ width) :
    (shortest n).length ≤ width := by
  induction width generalizing n with
  | zero =>
    have zero : n = 0 := by simpa using h
    rw [zero, shortest_zero]
    exact Nat.le_refl 0
  | succ width ih =>
    by_cases zero : n = 0
    · rw [zero, shortest_zero]
      exact Nat.zero_le _
    · have smaller := ih (Nat.div_lt_of_lt_mul (by rwa [Nat.mul_comm, ← Nat.pow_succ]))
      rw [length_shortest_of_ne zero]
      omega

theorem shortest_ne_nil {n : Nat} (h : n ≠ 0) : shortest n ≠ [] := by
  rw [shortest_of_ne h]
  simp

theorem head?_shortest (n : Nat) : (shortest n).head? ≠ some 0 := by
  induction n using Nat.strongRecOn with
  | ind n ih =>
    by_cases zero : n = 0
    · rw [zero, shortest_zero]
      simp
    · rw [shortest_of_ne zero]
      by_cases one : n / 256 = 0
      · have small : n % 256 = n := by omega
        rw [one, shortest_zero, List.nil_append, List.head?_cons, ne_eq, Option.some.injEq]
        intro h
        have value := congrArg UInt8.toNat h
        rw [UInt8.toNat_ofNat', small] at value
        exact zero value
      · obtain ⟨y, rest, front⟩ := List.exists_cons_of_ne_nil (shortest_ne_nil one)
        have canonical := ih (n / 256) (by omega)
        rw [front] at canonical ⊢
        exact canonical

theorem shortest_toNat {b : Bytes} (h : b.head? ≠ some 0) : shortest b.toNat = b := by
  induction b using List.reverseRecOn with
  | nil => exact shortest_zero
  | append_singleton b x ih =>
    have last : UInt8.ofNat (toNat b * 256 + x.toNat) = x := by
      apply UInt8.toNat_inj.1
      have small := x.toNat_lt
      rw [UInt8.toNat_ofNat']
      omega
    have front : shortest (toNat b) = b := by
      cases b with
      | nil => exact shortest_zero
      | cons y rest => exact ih h
    have small := x.toNat_lt
    have quotient : (toNat b * 256 + x.toNat) / 256 = toNat b := by omega
    have nonzero : toNat b * 256 + x.toNat ≠ 0 := by
      intro zero
      have noFront : toNat b = 0 := by omega
      have noLast : x = 0 := UInt8.toNat_inj.1 (by rw [UInt8.toNat_zero]; omega)
      rw [noFront, shortest_zero] at front
      rw [← front, noLast] at h
      exact h rfl
    rw [toNat_concat, shortest_of_ne nonzero, quotient, front, last]

end Bytes

namespace Rlp

def take? (n : Nat) (b : Bytes) : Option (Bytes × Bytes) :=
  if n ≤ b.length then some (b.take n, b.drop n) else none

/-- The payload behind the first byte of a header, given what that byte has above its offset: the
length itself up to fifty-five, else fifty-five more than the count of the bytes of the length. A
length with a leading zero is refused, and so is a long form below fifty-six. -/
def payload? (code : Nat) (b : Bytes) : Option (Bytes × Bytes) :=
  if code < 56 then take? code b
  else
    (take? (code - 55) b).bind fun p =>
      if p.1.head? = some 0 ∨ p.1.toNat < 56 then none else take? p.1.toNat p.2

def standsAlone : Bytes → Bool
  | [x] => x.toNat < textOffset
  | _ => false

/-- An item whose list, if it is one, has not been read. -/
inductive Piece
  | bytes (b : Bytes)
  | list (payload : Bytes)

def piece? : Bytes → Option (Piece × Bytes)
  | [] => none
  | x :: rest =>
    if x.toNat < textOffset then some (.bytes [x], rest)
    else if x.toNat < listOffset then
      (payload? (x.toNat - textOffset) rest).bind fun p =>
        if standsAlone p.1 then none else some (.bytes p.1, p.2)
    else (payload? (x.toNat - listOffset) rest).map fun p => (.list p.1, p.2)

theorem take?_append (b rest : Bytes) : take? b.length (b ++ rest) = some (b, rest) := by
  rw [take?, if_pos (by rw [List.length_append]; omega), List.take_left, List.drop_left]

theorem take?_eq_some {n : Nat} {b taken rest : Bytes} (h : take? n b = some (taken, rest)) :
    taken.length = n ∧ b = taken ++ rest := by
  unfold take? at h
  split at h
  · next enough =>
    cases h
    exact ⟨List.length_take_of_le enough, (List.take_append_drop n b).symm⟩
  · contradiction

def lengthCode (n : Nat) : Nat :=
  if n < 56 then n else 55 + (Bytes.shortest n).length

def lengthDigits (n : Nat) : Bytes :=
  if n < 56 then [] else Bytes.shortest n

theorem header_eq (offset n : Nat) :
    header offset n = UInt8.ofNat (offset + lengthCode n) :: lengthDigits n := by
  unfold header lengthCode lengthDigits
  dsimp only
  split
  · rfl
  · rw [Nat.add_assoc]

theorem lengthCode_lt {n : Nat} (h : n < 2 ^ 64) : lengthCode n < 64 := by
  have digits : (Bytes.shortest n).length ≤ 8 := Bytes.length_shortest_le_of_lt h
  unfold lengthCode
  split <;> omega

theorem toNat_header {offset n : Nat} (low : offset ≤ listOffset) (h : n < 2 ^ 64) :
    (UInt8.ofNat (offset + lengthCode n)).toNat = offset + lengthCode n := by
  have code := lengthCode_lt h
  have low' : offset ≤ 192 := low
  rw [UInt8.toNat_ofNat']
  omega

theorem payload?_append (b rest : Bytes) :
    payload? (lengthCode b.length) (lengthDigits b.length ++ (b ++ rest)) = some (b, rest) := by
  unfold payload? lengthCode lengthDigits
  by_cases short : b.length < 56
  · rw [if_pos short, if_pos short, if_pos short]
    exact take?_append b rest
  · have nonempty := List.length_pos_iff.2 (Bytes.shortest_ne_nil (by omega : b.length ≠ 0))
    have accepted : ¬((Bytes.shortest b.length).head? = some 0 ∨
        (Bytes.shortest b.length).toNat < 56) := by
      rw [Bytes.toNat_shortest]
      exact not_or.2 ⟨Bytes.head?_shortest b.length, short⟩
    rw [if_neg short, if_neg short, if_neg (by omega), Nat.add_sub_cancel_left, take?_append,
      Option.bind_some, if_neg accepted, Bytes.toNat_shortest]
    exact take?_append b rest

theorem payload?_eq_some {code : Nat} {b payload rest : Bytes} (low : code < 64)
    (h : payload? code b = some (payload, rest)) :
    payload.length < 2 ^ 64 ∧ code = lengthCode payload.length ∧
      b = lengthDigits payload.length ++ (payload ++ rest) := by
  unfold payload? at h
  by_cases short : code < 56
  · rw [if_pos short] at h
    obtain ⟨length, split⟩ := take?_eq_some h
    rw [lengthCode, lengthDigits, length, if_pos short, if_pos short]
    exact ⟨by omega, rfl, split⟩
  · rw [if_neg short, Option.bind_eq_some_iff] at h
    obtain ⟨⟨digits, behind⟩, taken, h⟩ := h
    obtain ⟨count, split⟩ := take?_eq_some taken
    obtain ⟨_, none⟩ | ⟨accepted, h⟩ := ite_eq_iff.1 h
    · cases none
    · obtain ⟨length, split'⟩ := take?_eq_some h
      obtain ⟨canonical, long⟩ := not_or.1 accepted
      have bound : digits.toNat < 256 ^ 8 :=
        Nat.lt_of_lt_of_le (Bytes.toNat_lt digits) (Nat.pow_le_pow_right (by decide) (by omega))
      rw [lengthCode, lengthDigits, length, if_neg long, if_neg long,
        Bytes.shortest_toNat canonical, count, ← split', ← split]
      exact ⟨bound, by omega, rfl⟩

theorem encodeBytes_eq (b : Bytes) :
    encodeBytes b = if standsAlone b then b else header textOffset b.length ++ b := by
  unfold encodeBytes
  split
  · simp only [standsAlone, decide_eq_true_eq, List.length_singleton]
  · next several =>
    have behind : standsAlone b ≠ true := by
      unfold standsAlone
      split
      · next x => exact absurd rfl (several x)
      · decide
    rw [if_neg behind]

theorem piece?_encodeBytes {b : Bytes} (h : b.length < 2 ^ 64) (rest : Bytes) :
    piece? (encodeBytes b ++ rest) = some (.bytes b, rest) := by
  rw [encodeBytes_eq]
  by_cases alone : standsAlone b = true
  · rw [if_pos alone]
    unfold standsAlone at alone
    split at alone
    · next x =>
      rw [decide_eq_true_eq] at alone
      exact if_pos alone
    · contradiction
  · have code := lengthCode_lt h
    have above : ¬textOffset + lengthCode b.length < textOffset := by omega
    have below : textOffset + lengthCode b.length < listOffset := by
      change 128 + lengthCode b.length < 192
      omega
    rw [if_neg alone, header_eq, List.append_assoc, List.cons_append, piece?,
      toNat_header (by decide) h, if_neg above, if_pos below, Nat.add_sub_cancel_left,
      payload?_append, Option.bind_some]
    exact if_neg alone

theorem piece?_encodeList {items : List Bytes} (h : items.flatten.length < 2 ^ 64) (rest : Bytes) :
    piece? (encodeList items ++ rest) = some (.list items.flatten, rest) := by
  have notAlone : ¬listOffset + lengthCode items.flatten.length < textOffset := by
    change ¬192 + lengthCode items.flatten.length < 128
    omega
  have notBytes : ¬listOffset + lengthCode items.flatten.length < listOffset := by omega
  rw [encodeList, header_eq, List.append_assoc, List.cons_append, piece?,
    toNat_header (Nat.le_refl _) h, if_neg notAlone, if_neg notBytes, Nat.add_sub_cancel_left,
    payload?_append]
  rfl

def Piece.encode : Piece → Bytes
  | .bytes b => encodeBytes b
  | .list payload => encodeList [payload]

def Piece.payload : Piece → Bytes
  | .bytes b => b
  | .list payload => payload

theorem piece?_eq_some {b rest : Bytes} {p : Piece} (h : piece? b = some (p, rest)) :
    p.payload.length < 2 ^ 64 ∧ b = p.encode ++ rest := by
  unfold piece? at h
  split at h
  · contradiction
  · next x behind =>
    have byte := x.toNat_lt
    -- the first byte stands for itself, or tells the length of a byte string, or of a list
    have offsets : textOffset = 128 ∧ listOffset = 192 := ⟨rfl, rfl⟩
    by_cases alone : x.toNat < textOffset
    · rw [if_pos alone] at h
      cases h
      refine ⟨Nat.one_lt_two_pow (by decide), ?_⟩
      rw [Piece.encode, encodeBytes, if_pos alone]
      rfl
    · rw [if_neg alone] at h
      by_cases bytes : x.toNat < listOffset
      · rw [if_pos bytes, Option.bind_eq_some_iff] at h
        obtain ⟨⟨payload, behind'⟩, read, h⟩ := h
        obtain ⟨room, code, split⟩ := payload?_eq_some (by omega) read
        obtain ⟨_, none⟩ | ⟨several, same⟩ := ite_eq_iff.1 h
        · cases none
        · cases same
          refine ⟨room, ?_⟩
          rw [Piece.encode, encodeBytes_eq, if_neg several, header_eq, ← code,
            Nat.add_sub_cancel' (Nat.le_of_not_lt alone), UInt8.ofNat_toNat, split,
            List.append_assoc]
          rfl
      · rw [if_neg bytes, Option.map_eq_some_iff] at h
        obtain ⟨⟨payload, rest'⟩, read, same⟩ := h
        cases same
        obtain ⟨room, code, split⟩ := payload?_eq_some (by omega) read
        refine ⟨room, ?_⟩
        rw [Piece.encode, encodeList, List.flatten_singleton, header_eq, ← code,
          Nat.add_sub_cancel' (Nat.le_of_not_lt bytes), UInt8.ofNat_toNat, split,
          List.append_assoc]
        rfl

theorem Piece.encode_ne_nil (p : Piece) : p.encode ≠ [] := by
  cases p with
  | bytes b =>
    rw [encode, encodeBytes_eq]
    split
    · next alone =>
      rintro rfl
      contradiction
    · rw [header_eq]
      simp
  | list payload =>
    rw [encode, encodeList, header_eq]
    simp

theorem length_rest_lt {b rest : Bytes} {p : Piece} (h : piece? b = some (p, rest)) :
    rest.length < b.length := by
  have some := List.length_pos_iff.2 p.encode_ne_nil
  rw [(piece?_eq_some h).2, List.length_append]
  omega

theorem length_payload_lt {b payload rest : Bytes} (h : piece? b = some (.list payload, rest)) :
    payload.length < b.length := by
  rw [(piece?_eq_some h).2, Piece.encode, encodeList, List.flatten_singleton, header_eq]
  simp only [List.length_append, List.length_cons]
  omega

def decodeAll? (b : Bytes) : Option (List Item) :=
  if b = [] then some []
  else
    match _h : piece? b with
    | none => none
    | some (.bytes t, rest) => (decodeAll? rest).map (.bytes t :: ·)
    | some (.list payload, rest) =>
      (decodeAll? payload).bind fun items => (decodeAll? rest).map (.list items :: ·)
termination_by b.length
decreasing_by
  · exact length_rest_lt _h
  · exact length_payload_lt _h
  · exact length_rest_lt _h

def Piece.item? : Piece → Option Item
  | .bytes b => some (.bytes b)
  | .list payload => (decodeAll? payload).map .list

/-- The first item with all that it holds, and what follows it. -/
def decode? (b : Bytes) : Option (Item × Bytes) :=
  (piece? b).bind fun p => p.1.item?.map (·, p.2)

theorem decodeAll?_nil : decodeAll? [] = some [] := by
  rw [decodeAll?, if_pos rfl]

theorem decodeAll?_of_ne_nil {b : Bytes} (h : b ≠ []) :
    decodeAll? b = (decode? b).bind fun p => (decodeAll? p.2).map (p.1 :: ·) := by
  rw [decodeAll?, if_neg h, decode?]
  split
  · next none => rw [none]; rfl
  · next read => rw [read]; rfl
  · next payload rest read =>
    rw [read, Option.bind_some, Piece.item?]
    cases decodeAll? payload <;> rfl

namespace Item

def payload : Item → Bytes
  | bytes b => b
  | list items => (encodeAll items).flatten

theorem length_payload_le (i : Item) : i.payload.length ≤ i.encode.length := by
  cases i with
  | bytes b =>
    have long := le_length_encodeBytes b
    rw [payload, encode]
    omega
  | list items =>
    rw [payload, encode, encodeList, List.length_append]
    omega

theorem encode_ne_nil (i : Item) : i.encode ≠ [] := by
  cases i with
  | bytes b => rw [encode]; exact (Piece.bytes b).encode_ne_nil
  | list items =>
    rw [encode, encodeList, header_eq]
    simp

mutual

/-- What is written is read, whatever follows. -/
theorem decode?_encode (i : Item) (h : i.payload.length < 2 ^ 64) (rest : Bytes) :
    decode? (i.encode ++ rest) = some (i, rest) := by
  cases i with
  | bytes b =>
    rw [payload] at h
    rw [encode, decode?, piece?_encodeBytes h]
    rfl
  | list items =>
    rw [encode, decode?, piece?_encodeList h, Option.bind_some, Piece.item?,
      decodeAll?_encodeAll items h]
    rfl

theorem decodeAll?_encodeAll (items : List Item) (h : (encodeAll items).flatten.length < 2 ^ 64) :
    decodeAll? (encodeAll items).flatten = some items := by
  cases items with
  | nil => exact decodeAll?_nil
  | cons i rest =>
    rw [encodeAll, List.flatten_cons] at h ⊢
    have first := i.length_payload_le
    rw [List.length_append] at h
    have nonempty : i.encode ++ (encodeAll rest).flatten ≠ [] := by simp [i.encode_ne_nil]
    rw [decodeAll?_of_ne_nil nonempty, decode?_encode i (by omega), Option.bind_some,
      decodeAll?_encodeAll rest (by omega)]
    rfl

end

end Item

theorem exists_piece_of_decode? {b rest : Bytes} {i : Item} (h : decode? b = some (i, rest)) :
    ∃ p, piece? b = some (p, rest) ∧ p.item? = some i := by
  obtain ⟨⟨p, rest'⟩, piece, h⟩ := Option.bind_eq_some_iff.1 h
  obtain ⟨j, item, same⟩ := Option.map_eq_some_iff.1 h
  cases same
  exact ⟨p, piece, item⟩

theorem decodeAll?_cases {b : Bytes} {items : List Item} (h : decodeAll? b = some items) :
    (b = [] ∧ items = []) ∨ ∃ i rest more, decode? b = some (i, rest) ∧
      decodeAll? rest = some more ∧ items = i :: more := by
  by_cases empty : b = []
  · subst empty
    rw [decodeAll?_nil, Option.some.injEq] at h
    exact .inl ⟨rfl, h.symm⟩
  · rw [decodeAll?_of_ne_nil empty, Option.bind_eq_some_iff] at h
    obtain ⟨⟨i, rest⟩, first, h⟩ := h
    obtain ⟨more, read, rfl⟩ := Option.map_eq_some_iff.1 h
    exact .inr ⟨i, rest, more, first, read, rfl⟩

theorem Piece.encode_of_item? {p : Piece} {i : Item} (h : p.item? = some i)
    (parts : ∀ payload items, p = .list payload → decodeAll? payload = some items →
      (Item.encodeAll items).flatten = payload) :
    i.encode = p.encode ∧ i.payload = p.payload := by
  cases p with
  | bytes b =>
    cases h
    exact ⟨by rw [Item.encode, encode], by rw [Item.payload, payload]⟩
  | list payload =>
    obtain ⟨items, read, rfl⟩ := Option.map_eq_some_iff.1 h
    have flat := parts payload items rfl read
    rw [Item.encode, encode, encodeList, encodeList, List.flatten_singleton, Item.payload, flat]
    exact ⟨rfl, rfl⟩

theorem flatten_of_decodeAll? {b : Bytes} {items : List Item} (h : decodeAll? b = some items) :
    (Item.encodeAll items).flatten = b := by
  induction length : b.length using Nat.strongRecOn generalizing b items with
  | ind n ih =>
    obtain ⟨rfl, rfl⟩ | ⟨i, rest, more, first, read, rfl⟩ := decodeAll?_cases h
    · rw [Item.encodeAll, List.flatten_nil]
    · obtain ⟨p, piece, item⟩ := exists_piece_of_decode? first
      have shorter := length_rest_lt piece
      have whole : i.encode = p.encode := by
        refine (Piece.encode_of_item? item fun payload items isList inner => ?_).1
        subst isList
        have inside := length_payload_lt piece
        exact ih payload.length (by omega) inner rfl
      rw [Item.encodeAll, List.flatten_cons, ih rest.length (by omega) read rfl, whole,
        ← (piece?_eq_some piece).2]

theorem decode?_eq_some {b rest : Bytes} {i : Item} (h : decode? b = some (i, rest)) :
    i.payload.length < 2 ^ 64 ∧ b = i.encode ++ rest := by
  obtain ⟨p, piece, item⟩ := exists_piece_of_decode? h
  obtain ⟨whole, payload⟩ := Piece.encode_of_item? item fun _ _ _ => flatten_of_decodeAll?
  rw [whole, payload]
  exact piece?_eq_some piece

/-- Trees whose payloads are shorter than `2 ^ 64` bytes correspond to the byte strings that the
strict reader accepts: the first byte of a header never overflows, the reader gives back each tree
and all that follows it, and what it accepts is what the tree is written as. So no encoding begins
with another one. -/
theorem Item.decode?_bijective :
    (∀ n < 2 ^ 64, ∀ offset ≤ listOffset, ∃ first digits,
      header offset n = first :: digits ∧ first.toNat = offset + lengthCode n) ∧
      (∀ i : Item, i.payload.length < 2 ^ 64 →
        ∀ rest, decode? (i.encode ++ rest) = some (i, rest)) ∧
      (∀ b i, decode? b = some (i, []) → i.payload.length < 2 ^ 64 ∧ i.encode = b) ∧
      ∀ i j : Item, i.payload.length < 2 ^ 64 → j.payload.length < 2 ^ 64 →
        i.encode <+: j.encode → i = j := by
  refine ⟨fun n room offset low => ⟨_, _, header_eq offset n, toNat_header low room⟩,
    decode?_encode, fun b i h => ?_, fun i j room room' h => ?_⟩
  · obtain ⟨room, whole⟩ := decode?_eq_some h
    rw [List.append_nil] at whole
    exact ⟨room, whole.symm⟩
  · obtain ⟨rest, whole⟩ := h
    have read := decode?_encode i room rest
    have read' := decode?_encode j room' []
    rw [whole] at read
    rw [List.append_nil, read, Option.some.injEq, Prod.mk.injEq] at read'
    exact read'.1

end Rlp

end VenueSigner
