import Mathlib.Logic.Relation
import Mathlib.Tactic.SplitIfs
import VenueSigner.Proofs.JsonRecord
import VenueSigner.TypedData.Schema
/-!
Type strings. A struct uses another one when the kind of a member, up to the first bracket, is its
name. The type string of a struct is its own definition, then the definitions of all others that
uses lead to, each once, in the order of the bytes of their names.
-/

namespace VenueSigner

theorem div_mod_lt {m n : Nat} (h : m < n) :
    m / 64 < n / 64 ∨ m / 64 = n / 64 ∧ m % 64 < n % 64 := by
  omega

theorem utf8EncodeChar_append_lt {c d : Char} (h : c < d) (s t : Bytes) :
    String.utf8EncodeChar c ++ s < String.utf8EncodeChar d ++ t := by
  have less : c.val.toNat < d.val.toNat := h
  have most : d.val.toNat < 0x110000 := by
    obtain small | ⟨_, small⟩ := d.valid
    · exact Nat.lt_trans small (by decide)
    · exact small
  -- a character is at most four digits to the base 64, and each byte holds one of them
  have digits (n : Nat) : n / 4096 = n / 64 / 64 ∧ n / 262144 = n / 64 / 64 / 64 := by omega
  have byte (n k m : Nat) (fits : k + m ≤ 256) (pos : 0 < k) :
      (n % k + m) % 2 ^ 8 = n % k + m := by
    have := Nat.mod_lt n pos
    omega
  have one := div_mod_lt less
  have two := @div_mod_lt (c.val.toNat / 64) (d.val.toNat / 64)
  have three := @div_mod_lt (c.val.toNat / 64 / 64) (d.val.toNat / 64 / 64)
  simp only [String.utf8EncodeChar]
  split_ifs <;>
    simp (disch := decide) only [digits, byte, List.cons_append, List.nil_append,
      List.cons_lt_cons_iff, UInt8.lt_iff_toNat_lt, ← UInt8.toNat_inj, UInt8.toNat_ofNat'] <;>
    omega

theorem flatMap_utf8EncodeChar_lt {cs ds : List Char} (h : cs < ds) :
    cs.flatMap String.utf8EncodeChar < ds.flatMap String.utf8EncodeChar := by
  induction ds generalizing cs with
  | nil => exact absurd h (List.not_lt_nil cs)
  | cons d ds ih =>
    cases cs with
    | nil =>
      have nonempty : String.utf8EncodeChar d ≠ [] := by
        simp only [String.utf8EncodeChar]
        split_ifs <;> simp
      obtain ⟨x, rest, front⟩ := List.exists_cons_of_ne_nil nonempty
      rw [List.flatMap_cons, front]
      exact List.nil_lt_cons _ _
    | cons c cs =>
      rw [List.flatMap_cons, List.flatMap_cons]
      obtain less | ⟨rfl, rest⟩ := List.cons_lt_cons_iff.1 h
      · exact utf8EncodeChar_append_lt less _ _
      · exact List.append_left_lt (ih rest)

theorem Bytes.ofText_lt {s t : String} (h : s < t) : Bytes.ofText s < Bytes.ofText t :=
  flatMap_utf8EncodeChar_lt h

namespace TypedData.Schema

variable {s : Schema} {todo found : List String} {a b name : String}

/-- A member of the first struct has a kind that is, up to the first bracket, the second struct. -/
def Uses (s : Schema) (a b : String) : Prop :=
  ∃ ms, s.members? a = some ms ∧ b ∈ ms.map Member.base ∧ s.has b

/-- Uses lead from the first struct to the second. -/
abbrev Reaches (s : Schema) : String → String → Prop :=
  Relation.ReflTransGen s.Uses

def Closed (s : Schema) (todo found : List String) : Prop :=
  ∀ a ∈ found, ∀ b, s.Uses a b → b ∈ found ∨ b ∈ todo

theorem Closed.drop_found {rest : List String} (h : s.Closed (name :: rest) found)
    (known : name ∈ found) : s.Closed rest found := by
  intro a ha b used
  obtain seen | next := h a ha b used
  · exact .inl seen
  · obtain rfl | later := List.mem_cons.1 next
    · exact .inl known
    · exact .inr later

theorem Closed.drop_unknown {rest : List String} (h : s.Closed (name :: rest) found)
    (unknown : s.members? name = none) : s.Closed rest found := by
  intro a ha b used
  obtain seen | next := h a ha b used
  · exact .inl seen
  · obtain rfl | later := List.mem_cons.1 next
    · obtain ⟨_, _, _, known⟩ := used
      rw [has, unknown] at known
      contradiction
    · exact .inr later

theorem Closed.visit {rest : List String} {ms : List Member} (h : s.Closed (name :: rest) found)
    (known : s.members? name = some ms) :
    s.Closed (ms.map Member.base ++ rest) (name :: found) := by
  intro a ha b used
  rw [List.mem_cons, List.mem_append]
  obtain rfl | old := List.mem_cons.1 ha
  · obtain ⟨ms', known', member, _⟩ := used
    rw [known, Option.some.injEq] at known'
    exact .inr (.inl (known' ▸ member))
  · obtain seen | next := h a old b used
    · exact .inl (.inr seen)
    · obtain here | later := List.mem_cons.1 next
      · exact .inl (.inl here)
      · exact .inr (.inr later)

/-- When nothing is left to be looked at, no use leads out of what was found. -/
theorem Closed.reach (h : s.Closed todo found) : s.Closed [] (s.reach todo found) := by
  fun_induction Schema.reach s todo found with
  | case1 found => exact h
  | case2 found name rest seen ih => exact ih (h.drop_found (by simpa using seen))
  | case3 found name rest fresh unknown ih => exact ih (h.drop_unknown unknown)
  | case4 found name rest fresh ms known ih => exact ih (h.visit known)

theorem mem_reach_of_found (h : a ∈ found) : a ∈ s.reach todo found := by
  fun_induction Schema.reach s todo found with
  | case1 found => exact h
  | case2 found name rest seen ih => exact ih h
  | case3 found name rest fresh unknown ih => exact ih h
  | case4 found name rest fresh ms known ih => exact ih (List.mem_cons_of_mem name h)

theorem mem_reach_of_todo (h : a ∈ todo) (struct : s.has a) : a ∈ s.reach todo found := by
  fun_induction Schema.reach s todo found with
  | case1 found => contradiction
  | case2 found name rest seen ih =>
    obtain rfl | later := List.mem_cons.1 h
    · exact mem_reach_of_found (by simpa using seen)
    · exact ih later
  | case3 found name rest fresh unknown ih =>
    obtain rfl | later := List.mem_cons.1 h
    · rw [has, unknown] at struct
      contradiction
    · exact ih later
  | case4 found name rest fresh ms known ih =>
    obtain rfl | later := List.mem_cons.1 h
    · exact mem_reach_of_found List.mem_cons_self
    · exact ih (List.mem_append_right _ later)

theorem reaches_of_mem_reach (h : b ∈ s.reach todo found) :
    b ∈ found ∨ ∃ a ∈ todo, s.has a ∧ s.Reaches a b := by
  fun_induction Schema.reach s todo found with
  | case1 found => exact .inl h
  | case2 found name rest seen ih =>
    obtain old | ⟨a, later, struct, path⟩ := ih h
    · exact .inl old
    · exact .inr ⟨a, List.mem_cons_of_mem name later, struct, path⟩
  | case3 found name rest fresh unknown ih =>
    obtain old | ⟨a, later, struct, path⟩ := ih h
    · exact .inl old
    · exact .inr ⟨a, List.mem_cons_of_mem name later, struct, path⟩
  | case4 found name rest fresh ms known ih =>
    have struct : s.has name := by rw [has, known]; rfl
    obtain new | ⟨a, next, used, path⟩ := ih h
    · obtain rfl | old := List.mem_cons.1 new
      · exact .inr ⟨b, List.mem_cons_self, struct, .refl⟩
      · exact .inl old
    · obtain member | later := List.mem_append.1 next
      · exact .inr ⟨name, List.mem_cons_self, struct, .head ⟨ms, known, member, used⟩ path⟩
      · exact .inr ⟨a, List.mem_cons_of_mem name later, used, path⟩

/-- The search from a struct finds exactly the structs that uses lead to. -/
theorem mem_reach_iff (struct : s.has a) : b ∈ s.reach [a] [] ↔ s.Reaches a b := by
  constructor
  · intro h
    obtain none | ⟨a', start, _, path⟩ := reaches_of_mem_reach h
    · contradiction
    · rwa [List.mem_singleton.1 start] at path
  · intro path
    have closed : s.Closed [] (s.reach [a] []) := Closed.reach (fun _ h => absurd h (by simp))
    induction path with
    | refl => exact mem_reach_of_todo List.mem_cons_self struct
    | tail _ last ih =>
      obtain seen | none := closed _ ih _ last
      · exact seen
      · contradiction

theorem mem_needs_iff {d : String × List Member} (struct : s.has a) :
    d ∈ s.needs a ↔ d.1 ≠ a ∧ s.Reaches a d.1 ∧ s.members? d.1 = some d.2 := by
  have kept : (((s.reach [a] []).contains d.1 && d.1 != a) = true) ↔
      d.1 ∈ s.reach [a] [] ∧ d.1 ≠ a := by
    simp
  rw [needs, List.mem_filter, kept, members?, Json.lookup_eq_some_iff s.sorted.distinct,
    mem_reach_iff struct]
  constructor
  · rintro ⟨defined, path, other⟩
    exact ⟨other, path, defined⟩
  · rintro ⟨other, path, defined⟩
    exact ⟨defined, path, other⟩

theorem needs_sorted (s : Schema) (a : String) :
    (s.needs a).Pairwise fun d e => Bytes.ofText d.1 < Bytes.ofText e.1 :=
  (s.sorted.sublist List.filter_sublist).imp Bytes.ofText_lt

/-- A struct has a type string exactly when the schema defines it. It is the definition of the
struct, then the definitions of the other structs that uses lead to, no more and no fewer, each once
and in the order of the bytes of their names. -/
theorem typeText?_spells (s : Schema) (name : String) :
    (s.typeText? name = none ↔ s.members? name = none) ∧
      ∀ ms, s.members? name = some ms → ∃ others : List (String × List Member),
        s.typeText? name = some (definitionText name ms ++
          String.join (others.map fun d => definitionText d.1 d.2)) ∧
        (others.Pairwise fun d e => Bytes.ofText d.1 < Bytes.ofText e.1) ∧
        ∀ other ms', (other, ms') ∈ others ↔
          other ≠ name ∧ s.Reaches name other ∧ s.members? other = some ms' := by
  constructor
  · rw [typeText?, Option.map_eq_none_iff]
  · intro ms known
    have struct : s.has name := by rw [has, known]; rfl
    refine ⟨s.needs name, ?_, s.needs_sorted name, fun other ms' => mem_needs_iff struct⟩
    rw [typeText?, known, Option.map_some]

end TypedData.Schema

end VenueSigner
