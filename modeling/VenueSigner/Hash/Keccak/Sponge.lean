import VenueSigner.Bytes
import VenueSigner.Hash.Keccak.Permutation
/-!
The Keccak-256 sponge with its own padding byte `0x01`, fed in pieces or in one go: bytes wait in a
buffer of one block, and each full buffer goes into the lanes.
-/

namespace VenueSigner

namespace Keccak

def rate : Nat := 136

def laneOfBytes (b : Bytes) : UInt64 :=
  b.foldr (fun x lane => (lane <<< 8) ||| x.toUInt64) 0

def laneBytes (lane : UInt64) : Bytes :=
  (List.range 8).map fun i => (lane >>> UInt64.ofNat (8 * i)).toUInt8

def lanesOfBytes : Bytes → List UInt64
  | a :: b :: c :: d :: e :: f :: g :: h :: rest =>
    laneOfBytes [a, b, c, d, e, f, g, h] :: lanesOfBytes rest
  | _ => []

def absorb (s : Lanes) (block : Bytes) : Lanes :=
  let lanes := (lanesOfBytes block).toArray
  permute (Vector.ofFn fun i => s.get i ^^^ lanes.getD i.val 0)

end Keccak

namespace FixedBytes

variable {size : Nat}

def write? (b : FixedBytes size) (start : Nat) (data : Bytes) : Option (FixedBytes size) :=
  if h : start + data.length ≤ size then
    some ⟨b.bytes.take start ++ data ++ b.bytes.drop (start + data.length), by
      have := b.length_eq
      simp
      omega⟩
  else none

def mask? (b : FixedBytes size) (index : Nat) (mask : UInt8) : Option (FixedBytes size) :=
  if index < size then
    some ⟨b.bytes.modify index (· ^^^ mask), by simp [b.length_eq]⟩
  else none

theorem exists_write? (b : FixedBytes size) (start : Nat) (data : Bytes)
    (h : start + data.length ≤ size) : ∃ c, b.write? start data = some c ∧
      c.bytes = b.bytes.take start ++ data ++ b.bytes.drop (start + data.length) := by
  simp [write?, h]

theorem exists_mask? (b : FixedBytes size) (index : Nat) (mask : UInt8) (h : index < size) :
    ∃ c, b.mask? index mask = some c ∧ c.bytes = b.bytes.modify index (· ^^^ mask) := by
  simp [mask?, h]

end FixedBytes

namespace Keccak

/-- A sponge in memory: the lanes, a buffer of one block, and how many bytes of the buffer count.
What lies behind these is left over from earlier blocks. -/
structure Sponge where
  state : Lanes
  buffer : FixedBytes rate
  filled : Nat

namespace Sponge

def fresh : Sponge :=
  ⟨Lanes.zero, ⟨List.replicate rate 0, by simp⟩, 0⟩

def drain (s : Sponge) : Sponge :=
  if s.filled = rate then { s with state := absorb s.state s.buffer.bytes, filled := 0 } else s

/-- Takes in bytes, each time as many as the buffer has room for. There is no result if a slice lies
outside the buffer, or if the buffer has no room and the loop would not end. -/
def feed? (s : Sponge) (data : Bytes) : Option Sponge :=
  if data.length = 0 then some s
  else if s.filled < rate then
    let count := min (rate - s.filled) data.length
    match s.buffer.write? s.filled (data.take count) with
    | some b => (drain ⟨s.state, b, s.filled + count⟩).feed? (data.drop count)
    | none => none
  else none
termination_by data.length
decreasing_by
  simp only [List.length_drop]
  omega

def squeeze (s : Lanes) : Word :=
  ⟨s.front.flatMap laneBytes, by simp [Lanes.front, laneBytes]⟩

/-- The last block: the rest of the buffer is cleared, one bit is set behind the message and one at
the end of the block. There is no result if an index lies outside the buffer. -/
def lastBlock? (s : Sponge) : Option (FixedBytes rate) := do
  let cleared ← s.buffer.write? s.filled (List.replicate (rate - s.filled) 0)
  let marked ← cleared.mask? s.filled 0x01
  marked.mask? (rate - 1) 0x80

def finish? (s : Sponge) : Option Word :=
  s.lastBlock?.map fun b => squeeze (absorb s.state b.bytes)

/-- A sponge whose buffer has room takes in any bytes, and has room again. -/
theorem exists_feed? {s : Sponge} (room : s.filled < rate) (data : Bytes) :
    ∃ t, s.feed? data = some t ∧ t.filled < rate := by
  fun_induction feed? s data with
  | case1 s data empty => exact ⟨s, rfl, room⟩
  | case2 s data some_left _ count b written ih =>
    apply ih
    unfold drain
    split
    · exact Nat.zero_lt_of_lt room
    · next notFull =>
      have count_le : count ≤ rate - s.filled := Nat.min_le_left _ _
      dsimp only at notFull ⊢
      omega
  | case3 s data some_left _ count outside =>
    have count_le : count ≤ rate - s.filled := Nat.min_le_left _ _
    obtain ⟨b, written, _⟩ := s.buffer.exists_write? s.filled (data.take count)
      (by rw [List.length_take]; omega)
    rw [written] at outside
    contradiction
  | case4 s data _ full => exact absurd room full

theorem exists_lastBlock? {s : Sponge} (room : s.filled < rate) : ∃ b, s.lastBlock? = some b := by
  obtain ⟨cleared, hc, _⟩ := s.buffer.exists_write? s.filled
    (List.replicate (rate - s.filled) 0) (by rw [List.length_replicate]; omega)
  obtain ⟨marked, hm, _⟩ := cleared.exists_mask? s.filled 0x01 room
  obtain ⟨closed, hd, _⟩ := marked.exists_mask? (rate - 1) 0x80 (by decide)
  exact ⟨closed, by simp [lastBlock?, hc, hm, hd]⟩

end Sponge

structure Hasher extends Sponge where
  filled_lt : filled < rate

namespace Hasher

def fresh : Hasher :=
  ⟨.fresh, by decide⟩

def update (h : Hasher) (data : Bytes) : Hasher :=
  ⟨(h.feed? data).get (by
      obtain ⟨t, fed, _⟩ := Sponge.exists_feed? h.filled_lt data
      simp [fed]), by
    obtain ⟨t, fed, room⟩ := Sponge.exists_feed? h.filled_lt data
    simpa [fed] using room⟩

def finish (h : Hasher) : Word :=
  h.finish?.get (by
    obtain ⟨b, last⟩ := Sponge.exists_lastBlock? h.filled_lt
    simp [Sponge.finish?, last])

end Hasher

def digest (data : Bytes) : Word :=
  (Hasher.fresh.update data).finish

def digestText (s : String) : Word :=
  digest (Bytes.ofText s)

end Keccak

end VenueSigner
