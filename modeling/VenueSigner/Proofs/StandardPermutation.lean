import Mathlib.Data.Fintype.Basic
import Mathlib.Data.List.Forall2
import Mathlib.Data.List.Nodup
import Mathlib.Tactic.FinCases
import VenueSigner.Hash.Keccak.Permutation
import VenueSigner.Positional
/-!
The permutation Keccak-f[1600] as FIPS 202 defines it, on an array of bits that are all rewritten at
once. The permutation of lanes does the same to the bits of the lanes: its tables of moves and of
round constants are those that the standard generates, and the one lane that it carries along a walk
rearranges all the others.
-/

namespace VenueSigner.Keccak

abbrev StateArray := Fin 5 → Fin 5 → Fin 64 → Bool

namespace StateArray

instance (priority := high) rows_nonempty : @NeZero Nat Zero.ofOfNat0 5 :=
  Nat.instNeZeroSucc

instance (priority := high) places_nonempty : @NeZero Nat Zero.ofOfNat0 64 :=
  Nat.instNeZeroSucc

def columnSum (a : StateArray) (x : Fin 5) (z : Fin 64) : Bool :=
  a x 0 z ^^ a x 1 z ^^ a x 2 z ^^ a x 3 z ^^ a x 4 z

def theta (a : StateArray) : StateArray := fun x y z =>
  a x y z ^^ (a.columnSum (x - 1) z ^^ a.columnSum (x + 1) (z - 1))

/-- The columns and rows that a walk from column 1 and row 0 comes to. -/
def orbit : Nat → Fin 5 × Fin 5
  | 0 => (1, 0)
  | t + 1 => ((orbit t).2, 2 * (orbit t).1 + 3 * (orbit t).2)

def turn (t : Nat) : Nat :=
  (t + 1) * (t + 2) / 2 % 64

/-- The number of bits by which a lane is turned; the walk leaves out the lane at the origin. -/
def offset (x y : Fin 5) : Nat :=
  (((List.range 24).find? fun t => orbit t = (x, y)).map turn).getD 0

def rho (a : StateArray) : StateArray := fun x y z => a x y (z - Fin.ofNat 64 (offset x y))

def pi (a : StateArray) : StateArray := fun x y => a (x + 3 * y) x

def chi (a : StateArray) : StateArray := fun x y z =>
  a x y z ^^ (!a (x + 1) y z && a (x + 2) y z)

def shift (register : BitVec 8) : BitVec 8 :=
  if register.msb then register <<< 1 ^^^ 0b01110001 else register <<< 1

def feedback (t : Nat) : Bool :=
  (shift^[t] 1).getLsbD 0

/-- The bits of the constant of a round, all zero but for those at places `2 ^ j - 1`. -/
def roundConstant (round : Nat) (z : Fin 64) : Bool :=
  (List.range 7).any fun j => z.val + 1 == 2 ^ j && feedback (j + 7 * round)

def iota (round : Nat) (a : StateArray) : StateArray := fun x y z =>
  if x = 0 ∧ y = 0 then a x y z ^^ roundConstant round z else a x y z

def round (a : StateArray) (number : Nat) : StateArray :=
  iota number a.theta.rho.pi.chi

def permute (a : StateArray) : StateArray :=
  (List.range 24).foldl round a

theorem pi_apply (a : StateArray) (x y : Fin 5) : a.pi y (2 * x + 3 * y) = a x y := by
  have back : ∀ x y : Fin 5, y + 3 * (2 * x + 3 * y) = x := by decide
  rw [pi, back]

theorem exists_source (x y : Fin 5) : ∃ u v : Fin 5, x = v ∧ y = 2 * u + 3 * v := by
  have all : ∀ x y : Fin 5, ∃ u v : Fin 5, x = v ∧ y = 2 * u + 3 * v := by decide
  exact all x y

theorem offset_lt (x y : Fin 5) : offset x y < 64 := by
  have all : ∀ x y, offset x y < 64 := by decide
  exact all x y

theorem offset_orbit : ∀ t < 24, offset (orbit t).1 (orbit t).2 = turn t := by
  decide

/-- The walk comes to all lanes but the one at the origin. -/
theorem exists_orbit : ∀ x y : Fin 5, (x = 0 ∧ y = 0) ∨ ∃ t < 24, orbit t = (x, y) := by
  decide

end StateArray

namespace Lanes

def lane (s : Lanes) (x y : Fin 5) : UInt64 :=
  s[x.val + 5 * y.val]

def bits (s : Lanes) : StateArray := fun x y z => (s.lane x y).toBitVec.getLsbD z.val

theorem eq_of_bits_eq {s t : Lanes} (h : s.bits = t.bits) : s = t := by
  ext i hi
  have place : i % 5 + 5 * (i / 5) = i := Nat.mod_add_div i 5
  have lanes : s[i] = t[i] := by
    apply UInt64.toBitVec_inj.1
    apply BitVec.eq_of_getLsbD_eq
    intro z hz
    have bit := congrFun (congrFun (congrFun h ⟨i % 5, by omega⟩) ⟨i / 5, by omega⟩) ⟨z, hz⟩
    simpa only [bits, lane, place] using bit
  rw [lanes]

end Lanes

open Lanes (lane bits)

theorem getLsbD_rotateLeft (l : UInt64) {k : Nat} (h : k < 64) (z : Fin 64) :
    (rotateLeft l k).toBitVec.getLsbD z.val =
      l.toBitVec.getLsbD (z - Fin.ofNat 64 k).val := by
  have place : (z - Fin.ofNat 64 k).val = (64 - k + z.val) % 64 := by
    rw [Fin.sub_def, Fin.val_ofNat, Nat.mod_eq_of_lt h]
  have both : (rotateLeft l k).toBitVec.getLsbD z.val =
      ((!decide (z.val < k) && l.toBitVec.getLsbD (z.val - k)) ||
        l.toBitVec.getLsbD ((64 - k) % 64 + z.val)) := by
    have inside : z.val - k < 64 := by omega
    simp [rotateLeft, Nat.mod_eq_of_lt h, BitVec.getLsbD_eq_getElem inside]
  rw [both, place]
  by_cases low : z.val < k
  · have wrapped : (64 - k) % 64 + z.val = (64 - k + z.val) % 64 := by omega
    simp [low, wrapped]
  · have kept : (64 - k + z.val) % 64 = z.val - k := by omega
    rw [kept]
    by_cases turned : k = 0
    · simp [turned]
    · have beyond : l.toBitVec.getLsbD ((64 - k) % 64 + z.val) = false :=
        BitVec.getLsbD_of_ge _ _ (by omega)
      simp [low, beyond]

theorem rotateLeft_zero (l : UInt64) : rotateLeft l 0 = l := by
  apply UInt64.toBitVec_inj.1
  apply BitVec.eq_of_getLsbD_eq
  intro z hz
  have bit := getLsbD_rotateLeft l (by decide : 0 < 64) ⟨z, hz⟩
  have same : (⟨z, hz⟩ : Fin 64) - Fin.ofNat 64 0 = ⟨z, hz⟩ :=
    Fin.ext (show (64 - 0 + z) % 64 = z by omega)
  rw [same] at bit
  exact bit

variable {ms : List (Fin 25 × Nat)}

theorem carryAlong_of_notMem {place : Nat} (inside : place < 25) (h : ∀ m ∈ ms, m.1.val ≠ place)
    (moving : UInt64) (s : Lanes) : (carryAlong ms moving s)[place] = s[place] := by
  induction ms generalizing moving s with
  | nil => rfl
  | cons m rest ih =>
    obtain ⟨other, others⟩ := List.forall_mem_cons.1 h
    rw [carryAlong, ih others]
    exact Vector.getElem_set_ne m.1.isLt inside other

/-- Each place of the walk gets the turned lane that was at the place before it, whatever else the
walk has put down until then. -/
theorem carryAlong_of_mem (distinct : (ms.map (·.1)).Nodup) (moving : UInt64) (s : Lanes)
    {lane : UInt64} {m : Fin 25 × Nat}
    (h : (lane, m) ∈ (moving :: ms.map fun m => s[m.1]).zip ms) :
    (carryAlong ms moving s)[m.1] = rotateLeft lane m.2 := by
  induction ms generalizing moving s with
  | nil => simp at h
  | cons first rest ih =>
    rw [List.map_cons, List.nodup_cons] at distinct
    rw [List.map_cons, List.zip_cons_cons, List.mem_cons] at h
    obtain here | later := h
    · cases here
      have untouched : ∀ n ∈ rest, n.1.val ≠ m.1.val := fun n member same =>
        distinct.1 (List.mem_map.2 ⟨n, member, Fin.ext same⟩)
      rw [carryAlong]
      exact (carryAlong_of_notMem m.1.isLt untouched _ _).trans (Vector.getElem_set_self m.1.isLt)
    · -- no later place is the one that was just written
      have same : (rest.map fun m => (s.set first.1.val (rotateLeft moving first.2))[m.1]) =
          rest.map fun m => s[m.1] := by
        refine List.map_congr_left fun m member => ?_
        refine Vector.getElem_set_ne first.1.isLt m.1.isLt fun equal => distinct.1 ?_
        exact List.mem_map.2 ⟨m, member, Fin.ext equal.symm⟩
      rw [carryAlong]
      refine ih distinct.2 s[first.1] _ ?_
      rw [same]
      exact later

def index (p : Fin 5 × Fin 5) : Fin 25 :=
  ⟨p.1.val + 5 * p.2.val, by omega⟩

theorem lane_eq (s : Lanes) (x y : Fin 5) : s.lane x y = s[index (x, y)] := rfl

theorem moves_eq : moves = (List.range 24).map fun t =>
    (index (StateArray.orbit (t + 1)), StateArray.turn t) := by
  decide

theorem moves_distinct : (moves.map (·.1)).Nodup := by
  decide

abbrev IsConstant (number : Nat) (constant : UInt64) : Prop :=
  ∀ z : Fin 64, constant.toBitVec.getLsbD z.val = StateArray.roundConstant number z

theorem isConstant_roundConstants : List.Forall₂ IsConstant (List.range 24) roundConstants := by
  decide +kernel

/-- The lane at each step of the walk goes to the next one. -/
theorem lane_rhoPi_orbit (s : Lanes) {t : Nat} (h : t < 24) :
    (rhoPi s).lane (StateArray.orbit (t + 1)).1 (StateArray.orbit (t + 1)).2 =
      rotateLeft (s.lane (StateArray.orbit t).1 (StateArray.orbit t).2) (StateArray.turn t) := by
  have move : moves[t]? = some (index (StateArray.orbit (t + 1)), StateArray.turn t) := by
    rw [moves_eq, List.getElem?_map, List.getElem?_range h, Option.map_some]
  have carried : (s[1] :: moves.map fun m => s[m.1])[t]? =
      some (s.lane (StateArray.orbit t).1 (StateArray.orbit t).2) := by
    cases t with
    | zero => rfl
    | succ t =>
      rw [List.getElem?_cons_succ, moves_eq, List.map_map, List.getElem?_map,
        List.getElem?_range (Nat.lt_of_succ_lt h), Option.map_some]
      rfl
  have paired : (s.lane (StateArray.orbit t).1 (StateArray.orbit t).2,
      (index (StateArray.orbit (t + 1)), StateArray.turn t)) ∈
        (s[1] :: moves.map fun m => s[m.1]).zip moves :=
    List.mem_of_getElem? (List.getElem?_zip_eq_some.2 ⟨carried, move⟩)
  have turned := carryAlong_of_mem moves_distinct s[1] s paired
  rw [lane_eq, rhoPi]
  exact turned

theorem lane_rhoPi (s : Lanes) (x y : Fin 5) :
    (rhoPi s).lane y (2 * x + 3 * y) = rotateLeft (s.lane x y) (StateArray.offset x y) := by
  obtain ⟨rfl, rfl⟩ | ⟨t, inside, walked⟩ := StateArray.exists_orbit x y
  · have untouched : ∀ m ∈ moves, m.1.val ≠ 0 := by decide
    have none : StateArray.offset 0 0 = 0 := by decide
    rw [none, rotateLeft_zero]
    exact carryAlong_of_notMem (by decide) untouched s[1] s
  · have turned : StateArray.offset x y = StateArray.turn t := by
      have := StateArray.offset_orbit t inside
      rwa [walked] at this
    have next : StateArray.orbit (t + 1) = (y, 2 * x + 3 * y) := by
      rw [StateArray.orbit.eq_2, walked]
    have moved := lane_rhoPi_orbit s inside
    rw [next, walked, ← turned] at moved
    exact moved

theorem bits_rhoPi (s : Lanes) : (rhoPi s).bits = s.bits.rho.pi := by
  funext x y z
  obtain ⟨u, v, rfl, rfl⟩ := StateArray.exists_source x y
  rw [StateArray.pi_apply, bits, lane_rhoPi, getLsbD_rotateLeft _ (StateArray.offset_lt u x)]
  rfl

theorem getLsbD_columnParity (s : Lanes) (x : Fin 5) (z : Fin 64) :
    (columnParity s x).toBitVec.getLsbD z.val = s.bits.columnSum x z := by
  simp only [columnParity, UInt64.toBitVec_xor, BitVec.getLsbD_xor]
  rfl

theorem lane_theta (s : Lanes) (x y : Fin 5) : (theta s).lane x y =
    s.lane x y ^^^ (columnParity s (x - 1) ^^^ rotateLeft (columnParity s (x + 1)) 1) := by
  have column : Fin.ofNat 5 (x.val + 5 * y.val) = x := Fin.ext (by simp)
  have left : ∀ x : Fin 5, x + 4 = x - 1 := by decide
  simp only [lane, theta, Vector.getElem_ofFn, column, Fin.getElem_fin, left]

theorem bits_theta (s : Lanes) : (theta s).bits = s.bits.theta := by
  funext x y z
  rw [bits, lane_theta]
  simp only [UInt64.toBitVec_xor, BitVec.getLsbD_xor, getLsbD_columnParity]
  rw [getLsbD_rotateLeft _ (by decide), getLsbD_columnParity]
  rfl

theorem rowLane_eq (s : Lanes) (x y : Fin 5) (right : Fin 5) :
    rowLane s (index (x, y)) right.val = s.lane (x + right) y := by
  have place : 5 * ((x.val + 5 * y.val) / 5) + (x.val + 5 * y.val + right.val) % 5 =
      (x + right).val + 5 * y.val := by
    rw [Fin.val_add]
    omega
  simp only [rowLane, lane, index, place]

theorem lane_chi (s : Lanes) (x y : Fin 5) : (chi s).lane x y =
    s.lane x y ^^^ (~~~ s.lane (x + 1) y &&& s.lane (x + 2) y) := by
  rw [← rowLane_eq s x y 1, ← rowLane_eq s x y 2]
  simp only [lane, chi, Vector.getElem_ofFn]
  rfl

theorem bits_chi (s : Lanes) : (chi s).bits = s.bits.chi := by
  funext x y z
  rw [bits, lane_chi]
  simp [StateArray.chi, bits]

theorem bits_iota (s : Lanes) {number : Nat} {constant : UInt64} (h : IsConstant number constant) :
    (iota constant s).bits = s.bits.iota number := by
  funext x y z
  rw [StateArray.iota]
  split
  · next origin =>
    obtain ⟨rfl, rfl⟩ := origin
    have first : (iota constant s).lane 0 0 = s.lane 0 0 ^^^ constant :=
      Vector.getElem_set_self (by decide)
    rw [bits, first, UInt64.toBitVec_xor, BitVec.getLsbD_xor, h]
    rfl
  · next other =>
    have away : 0 ≠ x.val + 5 * y.val := by
      intro same
      exact other ⟨Fin.ext (by simp; omega), Fin.ext (by simp; omega)⟩
    have kept : (iota constant s).lane x y = s.lane x y :=
      Vector.getElem_set_ne (by decide) (by omega) away
    rw [bits, kept]
    rfl

theorem bits_round (s : Lanes) {number : Nat} {constant : UInt64}
    (h : IsConstant number constant) : (round s constant).bits = s.bits.round number := by
  rw [round, bits_iota _ h, bits_chi, bits_rhoPi, bits_theta, StateArray.round]

theorem bits_foldl {numbers : List Nat} {constants : List UInt64} (s : Lanes)
    (h : List.Forall₂ IsConstant numbers constants) :
    (constants.foldl round s).bits = numbers.foldl StateArray.round s.bits := by
  induction h generalizing s with
  | nil => rfl
  | cons constant _ ih => rw [List.foldl_cons, List.foldl_cons, ih, bits_round s constant]

/-- The permutation of lanes is the permutation of the standard on their bits, and the walk with one
carried lane does what turning all lanes and then moving all of them at once does: each lane is
turned by its offset and moves from `(x, y)` to `(y, 2 * x + 3 * y)`. -/
theorem permute_standard :
    Function.Injective bits ∧ (∀ s : Lanes, (permute s).bits = s.bits.permute) ∧
      (∀ s : Lanes, (rhoPi s).bits = s.bits.rho.pi) ∧
      ∀ (s : Lanes) (x y : Fin 5),
        (rhoPi s).lane y (2 * x + 3 * y) = rotateLeft (s.lane x y) (StateArray.offset x y) :=
  ⟨fun _ _ => Lanes.eq_of_bits_eq, fun s => bits_foldl s isConstant_roundConstants, bits_rhoPi,
    lane_rhoPi⟩

end VenueSigner.Keccak
