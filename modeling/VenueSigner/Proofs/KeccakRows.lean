import Mathlib.Tactic.IntervalCases
import VenueSigner.Proofs.Sponge
import VenueSigner.Signer
/-!
The state of the permutation as five rows of five lanes, with every lane written out. A round does
the same to the rows as to the vector of lanes, but takes no lookups, so that digests and addresses
can be worked out in a proof.
-/

namespace VenueSigner

namespace Keccak

/-- A row of the state, or a lane for each column. -/
structure Row where
  a : UInt64
  b : UInt64
  c : UInt64
  d : UInt64
  e : UInt64

namespace Row

def add (r s : Row) : Row :=
  ⟨r.a ^^^ s.a, r.b ^^^ s.b, r.c ^^^ s.c, r.d ^^^ s.d, r.e ^^^ s.e⟩

def mix (p : Row) : Row :=
  ⟨p.e ^^^ rotateLeft p.b 1, p.a ^^^ rotateLeft p.c 1, p.b ^^^ rotateLeft p.d 1,
    p.c ^^^ rotateLeft p.e 1, p.d ^^^ rotateLeft p.a 1⟩

def chi (r : Row) : Row :=
  ⟨r.a ^^^ (~~~ r.b &&& r.c), r.b ^^^ (~~~ r.c &&& r.d), r.c ^^^ (~~~ r.d &&& r.e),
    r.d ^^^ (~~~ r.e &&& r.a), r.e ^^^ (~~~ r.a &&& r.b)⟩

end Row

structure Rows where
  a : Row
  b : Row
  c : Row
  d : Row
  e : Row

namespace Rows

def lanes (s : Rows) : Lanes := #v[
  s.a.a, s.a.b, s.a.c, s.a.d, s.a.e, s.b.a, s.b.b, s.b.c, s.b.d, s.b.e,
  s.c.a, s.c.b, s.c.c, s.c.d, s.c.e, s.d.a, s.d.b, s.d.c, s.d.d, s.d.e,
  s.e.a, s.e.b, s.e.c, s.e.d, s.e.e]

def ofFn (f : Nat → UInt64) : Rows :=
  ⟨⟨f 0, f 1, f 2, f 3, f 4⟩, ⟨f 5, f 6, f 7, f 8, f 9⟩, ⟨f 10, f 11, f 12, f 13, f 14⟩,
    ⟨f 15, f 16, f 17, f 18, f 19⟩, ⟨f 20, f 21, f 22, f 23, f 24⟩⟩

def theta (s : Rows) : Rows :=
  let m := ((((s.a.add s.b).add s.c).add s.d).add s.e).mix
  ⟨s.a.add m, s.b.add m, s.c.add m, s.d.add m, s.e.add m⟩

def rhoPi (s : Rows) : Rows where
  a := ⟨s.a.a, rotateLeft s.b.b 44, rotateLeft s.c.c 43, rotateLeft s.d.d 21, rotateLeft s.e.e 14⟩
  b := ⟨rotateLeft s.a.d 28, rotateLeft s.b.e 20, rotateLeft s.c.a 3, rotateLeft s.d.b 45,
    rotateLeft s.e.c 61⟩
  c := ⟨rotateLeft s.a.b 1, rotateLeft s.b.c 6, rotateLeft s.c.d 25, rotateLeft s.d.e 8,
    rotateLeft s.e.a 18⟩
  d := ⟨rotateLeft s.a.e 27, rotateLeft s.b.a 36, rotateLeft s.c.b 10, rotateLeft s.d.c 15,
    rotateLeft s.e.d 56⟩
  e := ⟨rotateLeft s.a.c 62, rotateLeft s.b.d 55, rotateLeft s.c.e 39, rotateLeft s.d.a 41,
    rotateLeft s.e.b 2⟩

def chi (s : Rows) : Rows :=
  ⟨s.a.chi, s.b.chi, s.c.chi, s.d.chi, s.e.chi⟩

def iota (constant : UInt64) (s : Rows) : Rows :=
  { s with a := { s.a with a := s.a.a ^^^ constant } }

def round (s : Rows) (constant : UInt64) : Rows :=
  iota constant s.theta.rhoPi.chi

def permute (s : Rows) : Rows :=
  roundConstants.foldl round s

theorem lanes_ofFn (f : Nat → UInt64) : (ofFn f).lanes = Vector.ofFn fun i => f i.val := by
  ext i hi
  rw [Vector.getElem_ofFn]
  interval_cases i <;> rfl

theorem theta_lanes (s : Rows) : Keccak.theta s.lanes = s.theta.lanes := by
  ext i hi
  simp only [Keccak.theta, Vector.getElem_ofFn]
  interval_cases i <;> rfl

theorem rhoPi_lanes (s : Rows) : Keccak.rhoPi s.lanes = s.rhoPi.lanes := by
  simp [Keccak.rhoPi, moves, carryAlong, lanes, rhoPi]

theorem chi_lanes (s : Rows) : Keccak.chi s.lanes = s.chi.lanes := by
  ext i hi
  simp only [Keccak.chi, Vector.getElem_ofFn, rowLane]
  interval_cases i <;> rfl

theorem iota_lanes (constant : UInt64) (s : Rows) :
    Keccak.iota constant s.lanes = (s.iota constant).lanes := by
  ext i hi
  simp only [Keccak.iota, Vector.getElem_set]
  interval_cases i <;> rfl

theorem round_lanes (s : Rows) (constant : UInt64) :
    Keccak.round s.lanes constant = (s.round constant).lanes := by
  rw [Keccak.round, theta_lanes, rhoPi_lanes, chi_lanes, iota_lanes, round]

theorem permute_lanes (s : Rows) : Keccak.permute s.lanes = s.permute.lanes := by
  rw [Keccak.permute, permute]
  induction roundConstants generalizing s with
  | nil => rfl
  | cons constant rest ih => rw [List.foldl_cons, List.foldl_cons, round_lanes, ih]

def xor (s t : Rows) : Rows :=
  ⟨s.a.add t.a, s.b.add t.b, s.c.add t.c, s.d.add t.d, s.e.add t.e⟩

def fresh : Rows :=
  ofFn fun _ => 0

def ofBlock (block : Bytes) : Rows :=
  ofFn fun i => if i < 17 then UInt64.ofNat (littleEndian ((block.drop (8 * i)).take 8)) else 0

def absorb (s : Rows) (block : Bytes) : Rows :=
  (s.xor (ofBlock block)).permute

def digest (message : Bytes) : Word :=
  ⟨List.ofFn (stateByte ((blocks (padded message)).foldl absorb fresh).lanes), by simp⟩

theorem lanes_fresh : fresh.lanes = Lanes.zero := by
  rw [fresh, lanes_ofFn]
  rfl

theorem xor_lanes (s t : Rows) :
    (s.xor t).lanes = Vector.ofFn fun i => s.lanes.get i ^^^ t.lanes.get i := by
  ext i hi
  rw [Vector.getElem_ofFn]
  interval_cases i <;> rfl

theorem addBlock_lanes (s : Rows) (block : Bytes) :
    addBlock s.lanes block = (s.absorb block).lanes := by
  rw [absorb, ← permute_lanes, addBlock, xor_lanes, ofBlock, lanes_ofFn]
  refine congrArg Keccak.permute (congrArg Vector.ofFn (funext fun i => ?_))
  have lane (f : Fin 25 → UInt64) : (Vector.ofFn f).get i = f i :=
    Vector.getElem_ofFn i.isLt
  rw [lane]
  split
  · rfl
  · rw [UInt64.xor_zero]

theorem foldl_addBlock_lanes (s : Rows) (bs : List Bytes) :
    bs.foldl addBlock s.lanes = (bs.foldl absorb s).lanes := by
  induction bs generalizing s with
  | nil => rfl
  | cons block rest ih => rw [List.foldl_cons, List.foldl_cons, addBlock_lanes, ih]

end Rows

theorem digest_eq_rows (message : Bytes) : digest message = Rows.digest message := by
  have absorbed : (blocks (padded message)).foldl addBlock Lanes.zero =
      ((blocks (padded message)).foldl Rows.absorb Rows.fresh).lanes := by
    rw [← Rows.lanes_fresh]
    exact Rows.foldl_addBlock_lanes _ _
  have read : (digest message).bytes =
      List.ofFn (stateByte ((blocks (padded message)).foldl addBlock Lanes.zero)) :=
    congrArg FixedBytes.bytes (digest_eq_reference message)
  rw [absorbed] at read
  exact FixedBytes.ext read

end Keccak

namespace SecretKey

theorem bytes_address (k : SecretKey) :
    k.address.bytes = (Keccak.Rows.digest k.publicBytes).bytes.drop 12 := by
  rw [← Keccak.digest_eq_rows]
  rfl

def least : SecretKey :=
  ⟨1, by decide, by decide⟩

theorem address_least :
    least.address = FixedBytes.ofNat 20 0x7e5f4552091a69125d5dfcb7b8c2659029395bdf := by
  refine FixedBytes.ext ?_
  rw [bytes_address]
  decide +kernel

end SecretKey

end VenueSigner
