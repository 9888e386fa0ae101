import Mathlib.Data.List.OfFn
import VenueSigner.Hash.Keccak.Sponge
/-!
What the sponge computes: the message is padded to whole blocks, each block is added to the lanes
and permuted, and the digest is read off the lanes. The sponge in memory gives this digest for every
way of feeding it, and no access leaves its buffer.
-/

namespace VenueSigner.Keccak

def littleEndian : Bytes → Nat
  | [] => 0
  | x :: rest => x.toNat + 256 * littleEndian rest

def blocks (b : Bytes) : List Bytes :=
  if b.length < rate then [] else b.take rate :: blocks (b.drop rate)
termination_by b.length
decreasing_by
  simp only [List.length_drop]
  have : 0 < rate := by decide
  omega

/-- A message with one bit behind it, zeros, and one bit at the end of its last block. -/
def padded (message : Bytes) : Bytes :=
  let free := rate - message.length % rate
  message ++ if free = 1 then [0x81] else 0x01 :: List.replicate (free - 2) 0 ++ [0x80]

def addBlock (s : Lanes) (block : Bytes) : Lanes :=
  permute (Vector.ofFn fun i =>
    if i.val < 17 then s.get i ^^^ UInt64.ofNat (littleEndian ((block.drop (8 * i.val)).take 8))
    else s.get i)

def stateByte (s : Lanes) (k : Fin 32) : UInt8 :=
  UInt8.ofNat ((s.get ⟨k.val / 8, by omega⟩).toNat / 256 ^ (k.val % 8))

/-- The digest of a message. -/
def reference (message : Bytes) : Word :=
  ⟨List.ofFn (stateByte ((blocks (padded message)).foldl addBlock Lanes.zero)), by simp⟩

theorem blocks_of_lt {b : Bytes} (h : b.length < rate) : blocks b = [] := by
  rw [blocks, if_pos h]

theorem blocks_of_length {b : Bytes} (h : b.length = rate) : blocks b = [b] := by
  have rest : (b.drop rate).length < rate := by
    rw [List.length_drop, h]
    decide
  rw [blocks, if_neg (by omega), blocks_of_lt rest, List.take_of_length_le (by omega)]

theorem blocks_append {a : Bytes} (whole : a.length % rate = 0) (b : Bytes) :
    blocks (a ++ b) = blocks a ++ blocks b := by
  induction a using blocks.induct with
  | case1 a short =>
    have empty : a = [] := by
      rw [Nat.mod_eq_of_lt short] at whole
      exact List.length_eq_zero_iff.1 whole
    subst empty
    rw [List.nil_append, blocks_of_lt short, List.nil_append]
  | case2 a long ih =>
    have whole' : (a.drop rate).length % rate = 0 := by
      rw [List.length_drop, ← Nat.mod_eq_sub_mod (by omega)]
      exact whole
    have long' : ¬ (a ++ b).length < rate := by
      rw [List.length_append]
      omega
    rw [blocks, if_neg long', List.take_append_of_le_length (by omega),
      List.drop_append_of_le_length (by omega), ih whole', blocks.eq_1 a, if_neg long,
      List.cons_append]

theorem laneOfBytes_toNat (b : Bytes) : (laneOfBytes b).toNat = littleEndian b % 2 ^ 64 := by
  induction b with
  | nil => rfl
  | cons x rest ih =>
    have low : x.toNat < 2 ^ 8 := x.toNat_lt
    have shifted : (laneOfBytes rest).toNat <<< 8 % 2 ^ 64 =
        2 ^ 8 * ((laneOfBytes rest).toNat % 2 ^ 56) := by
      rw [Nat.shiftLeft_eq]
      omega
    have step : (laneOfBytes (x :: rest)).toNat =
        ((laneOfBytes rest).toNat <<< 8 % 2 ^ 64) ||| x.toNat := by
      simp [laneOfBytes]
    rw [step, shifted, ← Nat.two_pow_add_eq_or_of_lt low, ih, littleEndian]
    omega

theorem laneOfBytes_eq (b : Bytes) : laneOfBytes b = UInt64.ofNat (littleEndian b) := by
  apply UInt64.toNat_inj.1
  rw [laneOfBytes_toNat, UInt64.toNat_ofNat']

theorem lanesOfBytes_eq_nil {b : Bytes} (short : b.length < 8) : lanesOfBytes b = [] := by
  match b with
  | _ :: _ :: _ :: _ :: _ :: _ :: _ :: _ :: rest =>
    simp only [List.length_cons] at short
    omega
  | [] | [_] | [_, _] | [_, _, _] | [_, _, _, _] | [_, _, _, _, _] | [_, _, _, _, _, _]
  | [_, _, _, _, _, _, _] => rfl

theorem lanesOfBytes_of_le {b : Bytes} (long : 8 ≤ b.length) :
    lanesOfBytes b = laneOfBytes (b.take 8) :: lanesOfBytes (b.drop 8) := by
  match b with
  | _ :: _ :: _ :: _ :: _ :: _ :: _ :: _ :: rest => rfl
  | [] | [_] | [_, _] | [_, _, _] | [_, _, _, _] | [_, _, _, _, _] | [_, _, _, _, _, _]
  | [_, _, _, _, _, _, _] =>
    simp only [List.length_cons, List.length_nil] at long
    omega

theorem lanesOfBytes_getElem? (i : Nat) (b : Bytes) :
    (lanesOfBytes b)[i]? =
      if 8 * i + 8 ≤ b.length then some (laneOfBytes ((b.drop (8 * i)).take 8)) else none := by
  induction i generalizing b with
  | zero =>
    by_cases long : 8 ≤ b.length
    · rw [lanesOfBytes_of_le long, if_pos (by omega)]
      rfl
    · rw [lanesOfBytes_eq_nil (by omega), if_neg (by omega)]
      rfl
  | succ i ih =>
    by_cases long : 8 ≤ b.length
    · have next : 8 * (i + 1) = 8 + 8 * i := by omega
      rw [lanesOfBytes_of_le long, List.getElem?_cons_succ, ih, List.length_drop, List.drop_drop,
        next]
      split
      · rw [if_pos (by omega)]
      · rw [if_neg (by omega)]
    · rw [lanesOfBytes_eq_nil (by omega), if_neg (by omega)]
      rfl

theorem absorb_eq {block : Bytes} (h : block.length = rate) (s : Lanes) :
    absorb s block = addBlock s block := by
  refine congrArg permute (congrArg Vector.ofFn (funext fun i => ?_))
  have lane := lanesOfBytes_getElem? i.val block
  rw [Array.getD_eq_getD_getElem?, List.getElem?_toArray, lane, h]
  by_cases first : i.val < 17
  · rw [if_pos first, if_pos (by unfold rate; omega), Option.getD_some, laneOfBytes_eq]
  · rw [if_neg first, if_neg (by unfold rate; omega), Option.getD_none, UInt64.xor_zero]

theorem laneBytes_eq (lane : UInt64) :
    laneBytes lane = List.ofFn fun j : Fin 8 => UInt8.ofNat (lane.toNat / 256 ^ j.val) := by
  have shift (i : Nat) (h : i < 8) :
      (lane >>> UInt64.ofNat (8 * i)).toUInt8 = UInt8.ofNat (lane.toNat / 256 ^ i) := by
    have small : 8 * i % 2 ^ 64 % 64 = 8 * i := by omega
    have value : (lane >>> UInt64.ofNat (8 * i)).toNat = lane.toNat / 256 ^ i := by
      rw [UInt64.toNat_shiftRight, UInt64.toNat_ofNat', small, Nat.shiftRight_eq_div_pow,
        Nat.pow_mul]
    rw [← value]
    rfl
  apply List.ext_getElem
  · simp [laneBytes]
  · intro i hi hi'
    have small : i < 8 := by simpa [laneBytes] using hi
    simp only [laneBytes, List.getElem_map, List.getElem_range, List.getElem_ofFn]
    exact shift i small

theorem squeeze_bytes (s : Lanes) : (Sponge.squeeze s).bytes = List.ofFn (stateByte s) := by
  have row (i : Fin 4) (h : ∀ j : Fin 8, i.val * 8 + j.val < 32) :
      (List.ofFn fun j : Fin 8 => stateByte s ⟨i.val * 8 + j.val, h j⟩) =
        laneBytes (s.get ⟨i.val, by omega⟩) := by
    rw [laneBytes_eq]
    refine congrArg List.ofFn (funext fun j => ?_)
    have lane : (i.val * 8 + j.val) / 8 = i.val := by omega
    have place : (i.val * 8 + j.val) % 8 = j.val := by omega
    simp only [stateByte, lane, place]
  rw [List.ofFn_mul (m := 4) (n := 8)]
  simp only [row, Sponge.squeeze]
  rw [List.ofFn_succ, List.ofFn_succ, List.ofFn_succ, List.ofFn_succ, List.ofFn_zero]
  simp only [List.flatten_cons, List.flatten_nil, List.append_nil]
  rfl

/-- The sponge stands where a message leaves it: its whole blocks are in the lanes, and the rest is
in front of the buffer. What the buffer holds behind that does not matter. -/
structure Sponge.Holds (s : Sponge) (whole rest : Bytes) : Prop where
  whole_blocks : whole.length % rate = 0
  state_eq : s.state = (blocks whole).foldl addBlock Lanes.zero
  filled_eq : s.filled = rest.length
  rest_lt : rest.length < rate
  front_eq : s.buffer.bytes.take rest.length = rest

def Sponge.Represents (s : Sponge) (message : Bytes) : Prop :=
  ∃ whole rest, whole ++ rest = message ∧ s.Holds whole rest

theorem Sponge.Represents.filled_lt {s : Sponge} {message : Bytes} (h : s.Represents message) :
    s.filled < rate := by
  obtain ⟨whole, rest, _, holds⟩ := h
  rw [holds.filled_eq]
  exact holds.rest_lt

theorem Sponge.represents_fresh : Sponge.fresh.Represents [] := by
  refine ⟨[], [], rfl, ?_⟩
  exact
    { whole_blocks := rfl
      state_eq := by rw [blocks_of_lt (by decide)]; rfl
      filled_eq := rfl
      rest_lt := by decide
      front_eq := rfl }

theorem Sponge.Represents.fill {s : Sponge} {message : Bytes} (h : s.Represents message)
    (data : Bytes) (fits : s.filled + data.length ≤ rate) :
    ∃ b, s.buffer.write? s.filled data = some b ∧
      (drain ⟨s.state, b, s.filled + data.length⟩).Represents (message ++ data) := by
  obtain ⟨whole, rest, rfl, holds⟩ := h
  obtain ⟨b, written, bytes⟩ := s.buffer.exists_write? s.filled data fits
  refine ⟨b, written, ?_⟩
  rw [holds.filled_eq, holds.front_eq] at bytes
  have count : s.filled + data.length = (rest ++ data).length := by
    rw [holds.filled_eq, List.length_append]
  have front : b.bytes.take (rest ++ data).length = rest ++ data := by
    rw [bytes, List.take_left]
  rw [count] at fits ⊢
  -- a full block goes into the lanes and leaves nothing in front; else all stays in front
  by_cases full : (rest ++ data).length = rate
  · have block : b.bytes = rest ++ data := by
      rw [← front, full, List.take_of_length_le (Nat.le_of_eq b.length_eq)]
    have entered : absorb s.state b.bytes =
        (blocks (whole ++ (rest ++ data))).foldl addBlock Lanes.zero := by
      rw [blocks_append holds.whole_blocks, blocks_of_length full, List.foldl_append,
        ← holds.state_eq, List.foldl_cons, List.foldl_nil, ← block, absorb_eq b.length_eq]
    refine ⟨whole ++ (rest ++ data), [], by simp, ?_⟩
    rw [drain, if_pos full]
    exact
      { whole_blocks := by
          rw [List.length_append, full, Nat.add_mod_right]
          exact holds.whole_blocks
        state_eq := entered
        filled_eq := rfl
        rest_lt := by decide
        front_eq := rfl }
  · refine ⟨whole, rest ++ data, by simp, ?_⟩
    rw [drain, if_neg full]
    exact
      { whole_blocks := holds.whole_blocks
        state_eq := holds.state_eq
        filled_eq := rfl
        rest_lt := Nat.lt_of_le_of_ne fits full
        front_eq := front }

/-- Bytes of any number are taken in, slice by slice. -/
theorem Sponge.exists_feed?_represents (s : Sponge) (data : Bytes) :
    ∀ message, s.Represents message →
      ∃ t, s.feed? data = some t ∧ t.Represents (message ++ data) := by
  -- the message is what was taken in so far, so it grows by each slice
  fun_induction Sponge.feed? s data with
  | case1 s data empty =>
    intro message h
    have nil : data = [] := List.length_eq_zero_iff.1 empty
    refine ⟨s, rfl, ?_⟩
    rw [nil, List.append_nil]
    exact h
  | case2 s data left room count b written ih =>
    intro message h
    have taken : (data.take count).length = count := by
      rw [List.length_take]
      exact Nat.min_eq_left (Nat.min_le_right _ _)
    have fits : s.filled + count ≤ rate := by
      have : count ≤ rate - s.filled := Nat.min_le_left _ _
      omega
    obtain ⟨c, written', next⟩ := h.fill (data.take count) (by rw [taken]; exact fits)
    rw [written', Option.some.injEq] at written
    rw [taken, written] at next
    obtain ⟨t, fed, represents⟩ := ih (message ++ data.take count) next
    refine ⟨t, fed, ?_⟩
    rw [List.append_assoc, List.take_append_drop] at represents
    exact represents
  | case3 s data left room count outside =>
    -- no slice is outside of the buffer, as it is cut to the room that is left
    intro message h
    have fits : s.filled + (data.take count).length ≤ rate := by
      have : count ≤ rate - s.filled := Nat.min_le_left _ _
      rw [List.length_take]
      omega
    obtain ⟨c, written, _⟩ := h.fill (data.take count) fits
    rw [written] at outside
    contradiction
  | case4 s data left full =>
    intro message h
    exact absurd h.filled_lt full

theorem Sponge.Represents.feedAll {s : Sponge} {message : Bytes} (h : s.Represents message)
    (chunks : List Bytes) :
    ∃ t, chunks.foldlM Sponge.feed? s = some t ∧ t.Represents (message ++ chunks.flatten) := by
  induction chunks generalizing s message with
  | nil => exact ⟨s, rfl, by simpa using h⟩
  | cons c rest ih =>
    obtain ⟨t, fed, ht⟩ := Sponge.exists_feed?_represents s c message h
    obtain ⟨u, fedAll, hu⟩ := ih ht
    refine ⟨u, ?_, by simpa using hu⟩
    rw [List.foldlM_cons, fed]
    exact fedAll

theorem modify_length_append {α : Type} (front : List α) (x : α) (rest : List α) (f : α → α) :
    (front ++ x :: rest).modify front.length f = front ++ f x :: rest := by
  induction front with
  | nil => rfl
  | cons a front ih => simpa using ih

theorem modify_cleared (front : Bytes) (free : Nat) (h : 0 < free) :
    ((front ++ List.replicate free 0).modify front.length (· ^^^ 0x01)).modify
        (front.length + free - 1) (· ^^^ 0x80) =
      front ++ if free = 1 then [0x81] else 0x01 :: List.replicate (free - 2) 0 ++ [0x80] := by
  obtain rfl | ⟨n, rfl⟩ : free = 1 ∨ ∃ n, free = n + 2 := by
    obtain _ | _ | n := free
    · omega
    · exact .inl rfl
    · exact .inr ⟨n, rfl⟩
  -- the only byte that is free takes both bits
  · have first := modify_length_append front (0 : UInt8) [] (· ^^^ 0x01)
    have last := modify_length_append front ((0 : UInt8) ^^^ 0x01) [] (· ^^^ 0x80)
    rw [List.replicate_one, first, Nat.add_sub_cancel, last]
    rfl
  · have split : List.replicate (n + 2) (0 : UInt8) = 0 :: (List.replicate n 0 ++ [0]) := by
      rw [List.replicate_succ, List.replicate_succ']
    have first := modify_length_append front (0 : UInt8) (List.replicate n 0 ++ [0]) (· ^^^ 0x01)
    have last := modify_length_append (front ++ (0 ^^^ 0x01) :: List.replicate n 0) (0 : UInt8) []
      (· ^^^ 0x80)
    have index : front.length + (n + 2) - 1 =
        (front ++ ((0 : UInt8) ^^^ 0x01) :: List.replicate n 0).length := by
      simp only [List.length_append, List.length_cons, List.length_replicate]
      omega
    have join : front ++ ((0 : UInt8) ^^^ 0x01) :: (List.replicate n 0 ++ [0]) =
        (front ++ (0 ^^^ 0x01) :: List.replicate n 0) ++ [0] := by
      simp only [List.append_assoc, List.cons_append]
    rw [split, first, index, join, last, if_neg (by omega), Nat.add_sub_cancel, List.append_assoc]
    rfl

theorem Sponge.Represents.finish {s : Sponge} {message : Bytes} (h : s.Represents message) :
    s.finish? = some (reference message) := by
  obtain ⟨whole, rest, rfl, holds⟩ := h
  have room : rest.length < rate := holds.rest_lt
  obtain ⟨cleared, hc, clearedBytes⟩ := s.buffer.exists_write? s.filled
    (List.replicate (rate - s.filled) 0) (by rw [holds.filled_eq, List.length_replicate]; omega)
  obtain ⟨marked, hm, markedBytes⟩ := cleared.exists_mask? s.filled 0x01
    (by rw [holds.filled_eq]; exact room)
  obtain ⟨closed, hd, closedBytes⟩ := marked.exists_mask? (rate - 1) 0x80 (by decide)
  have last : s.lastBlock? = some closed := by
    simp only [lastBlock?, hc, hm, hd, Option.bind_eq_bind, Option.bind_some]
  have front : cleared.bytes = rest ++ List.replicate (rate - rest.length) 0 := by
    have all : rest.length + (rate - rest.length) = rate := by omega
    rw [clearedBytes, holds.filled_eq, holds.front_eq, List.length_replicate, all,
      List.drop_of_length_le (Nat.le_of_eq s.buffer.length_eq), List.append_nil]
  have rest_eq : (whole ++ rest).length % rate = rest.length := by
    rw [List.length_append, Nat.add_mod, holds.whole_blocks, Nat.zero_add, Nat.mod_mod,
      Nat.mod_eq_of_lt room]
  have block : whole ++ closed.bytes = padded (whole ++ rest) := by
    have pad := modify_cleared rest (rate - rest.length) (by omega)
    have index : rest.length + (rate - rest.length) - 1 = rate - 1 := by omega
    rw [index] at pad
    rw [closedBytes, markedBytes, front, holds.filled_eq, pad, padded, rest_eq, List.append_assoc]
  have entered : absorb s.state closed.bytes =
      (blocks (padded (whole ++ rest))).foldl addBlock Lanes.zero := by
    rw [← block, blocks_append holds.whole_blocks, blocks_of_length closed.length_eq,
      List.foldl_append, ← holds.state_eq, List.foldl_cons, List.foldl_nil,
      absorb_eq closed.length_eq]
  rw [finish?, last, Option.map_some, entered, Option.some.injEq]
  exact FixedBytes.ext (squeeze_bytes _)

theorem Hasher.update_represents {h : Hasher} {message : Bytes} (hm : h.Represents message)
    (data : Bytes) : (h.update data).Represents (message ++ data) := by
  obtain ⟨t, fed, represents⟩ := Sponge.exists_feed?_represents h.toSponge data message hm
  simpa only [Hasher.update, fed, Option.get_some] using represents

theorem Hasher.finish_eq {h : Hasher} {message : Bytes} (hm : h.Represents message) :
    h.finish = reference message := by
  have finished : h.finish? = some (reference message) := Sponge.Represents.finish hm
  simp only [Hasher.finish, finished, Option.get_some]

theorem Hasher.foldl_update_represents {h : Hasher} {message : Bytes} (hm : h.Represents message)
    (chunks : List Bytes) :
    (chunks.foldl Hasher.update h).Represents (message ++ chunks.flatten) := by
  induction chunks generalizing h message with
  | nil => simpa using hm
  | cons c rest ih => simpa using ih (Hasher.update_represents hm c)

theorem digest_eq_reference (message : Bytes) : digest message = reference message := by
  have hashed := Hasher.update_represents (h := Hasher.fresh) Sponge.represents_fresh message
  exact Hasher.finish_eq hashed

/-- However a message is cut into chunks, feeding them one after another stays within the buffer and
gives the digest of the whole. What a copy of the sponge at any point is fed from then on gives the
digest that a fresh sponge gives for the same bytes in all, cut in any other way. -/
theorem feed_chunks_digest (before : List Bytes) :
    (before.foldl Hasher.update Hasher.fresh).finish = reference before.flatten ∧
      ∃ s, before.foldlM Sponge.feed? Sponge.fresh = some s ∧
        s.finish? = some (reference before.flatten) ∧
        ∀ after : List Bytes,
          (after.foldlM Sponge.feed? s).bind Sponge.finish? =
            some (reference (before.flatten ++ after.flatten)) ∧
          ∀ other : List Bytes, other.flatten = before.flatten ++ after.flatten →
            (other.foldlM Sponge.feed? Sponge.fresh).bind Sponge.finish? =
              (after.foldlM Sponge.feed? s).bind Sponge.finish? := by
  have hashed := Hasher.foldl_update_represents (h := Hasher.fresh) Sponge.represents_fresh before
  obtain ⟨s, fed, hs⟩ := Sponge.represents_fresh.feedAll before
  refine ⟨Hasher.finish_eq hashed, s, fed, hs.finish, fun after => ?_⟩
  obtain ⟨t, fedAfter, ht⟩ := hs.feedAll after
  have finished : (after.foldlM Sponge.feed? s).bind Sponge.finish? =
      some (reference (before.flatten ++ after.flatten)) := by
    rw [fedAfter, Option.bind_some]
    exact ht.finish
  refine ⟨finished, fun other same => ?_⟩
  obtain ⟨u, fedOther, hu⟩ := Sponge.represents_fresh.feedAll other
  rw [finished, fedOther, Option.bind_some, ← same]
  exact hu.finish

end VenueSigner.Keccak
