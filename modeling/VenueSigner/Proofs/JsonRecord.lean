import Mathlib.Data.List.Nodup
import VenueSigner.Json.Record
import VenueSigner.Proofs.ReadBack
/-!
Records of a fixed shape are read from what they are written as: each slot finds the member of its
name, and the parts of records, numbers, texts, choices and byte strings, are read back.
-/

namespace VenueSigner.Json

theorem lookup_eq_some_iff {α : Type} {ms : List (String × α)} (distinct : (ms.map (·.1)).Nodup)
    {name : String} {a : α} : ms.lookup name = some a ↔ (name, a) ∈ ms := by
  constructor
  · intro found
    obtain ⟨_, _, rfl, _⟩ := List.lookup_eq_some_iff.1 found
    exact List.mem_append_right _ List.mem_cons_self
  · intro h
    induction ms with
    | nil => contradiction
    | cons m rest ih =>
      rw [List.map_cons, List.nodup_cons] at distinct
      obtain rfl | later := List.mem_cons.1 h
      · rw [List.lookup_cons, beq_self_eq_true]
      · have differs : (name == m.1) = false := by
          refine beq_eq_false_iff_ne.2 fun same => distinct.1 ?_
          exact List.mem_map.2 ⟨(name, a), later, same⟩
        rw [List.lookup_cons, differs]
        exact ih distinct.2 later

theorem Sorted.distinct {α : Type} {ms : List (String × α)} (h : Sorted ms) :
    (ms.map (·.1)).Nodup := by
  have different {m n : String × α} (less : m.1 < n.1) : m.1 ≠ n.1 :=
    fun same => String.lt_irrefl n.1 (same ▸ less)
  exact List.pairwise_map.2 (List.Pairwise.imp different h)

namespace Tree

theorem membersNamed_eq {ms : List (String × Tree)} (distinct : (ms.map (·.1)).Nodup)
    (name : String) :
    membersNamed name (ms.map fun m => (some m.1, m.2)) = (ms.lookup name).toList := by
  induction ms with
  | nil => rfl
  | cons m rest ih =>
    rw [List.map_cons, List.nodup_cons] at distinct
    have others := ih distinct.2
    unfold membersNamed at others ⊢
    rw [List.map_cons, List.filter_cons, List.lookup_cons]
    by_cases same : m.1 = name
    · subst same
      have absent : List.lookup m.1 rest = none := List.lookup_eq_none_iff.2 fun p hp =>
        bne_iff_ne.2 fun same => distinct.1 (List.mem_map.2 ⟨p, hp, same.symm⟩)
      rw [absent] at others
      simpa using others
    · have differs : (name == m.1) = false := beq_eq_false_iff_ne.2 (Ne.symm same)
      simpa [same, differs] using others

theorem slotNamed?_eq {ms : List (String × Tree)} (distinct : (ms.map (·.1)).Nodup)
    (name : String) :
    slotNamed? (ms.map fun m => (some m.1, m.2)) name = some (ms.lookup name) := by
  rw [slotNamed?, membersNamed_eq distinct]
  cases ms.lookup name with
  | none => rfl
  | some t => rfl

/-- A slot finds the member of its name, or nothing. -/
theorem slots?_ofMembers {ms : List (String × Tree)} (distinct : (ms.map (·.1)).Nodup)
    (names : List String) :
    (ofMembers ms).slots? names = some (names.map fun n => ms.lookup n) := by
  have named : (ms.map fun m => (some m.1, m.2)).all (·.1.isSome) = true := by
    rw [List.all_map]
    exact List.all_eq_true.2 fun _ _ => rfl
  have found (n : String) := slotNamed?_eq distinct n
  rw [ofMembers, slots?, if_pos named, funext found]
  exact List.mapM_pure

theorem slots?_self {ms : List (String × Tree)} (distinct : (ms.map (·.1)).Nodup) :
    (ofMembers ms).slots? (ms.map (·.1)) = some (ms.map fun m => some m.2) := by
  rw [slots?_ofMembers distinct, List.map_map, Option.some.injEq]
  exact List.map_congr_left fun m h => (lookup_eq_some_iff distinct).2 h

theorem uint?_ofUint {bits : Nat} (n : Uint bits) : uint? bits (ofUint n) = some n := by
  change (Literal.natural? (Literal.ofNat n.val)).bind (Uint.ofNat? bits) = some n
  rw [Literal.natural?_ofNat, Option.bind_some, Uint.ofNat?_val]

theorem hexText?_encodePrefixed (b : Bytes) : hexText? (Hex.encodePrefixed b) = some b := by
  have spelled := Hex.spellsAll_encodeChars b
  have even : ((Hex.encodeChars b).map fun c => UInt8.ofNat c.toNat).length % 2 = 0 := by
    rw [List.length_map, spelled.length_even]
  simp only [hexText?, Hex.encodePrefixed, spelled.ofText_dropMark, if_pos even,
    spelled.decodePairs]
  rfl

theorem bytes?_ofBytes (b : Bytes) : (ofBytes b).bytes? = some b := by
  rw [ofBytes, ofText, bytes?, Option.bind_some, hexText?_encodePrefixed]

theorem fixedBytes?_ofBytes {size : Nat} (b : FixedBytes size) :
    fixedBytes? size (ofBytes b.bytes) = some b := by
  rw [fixedBytes?, bytes?_ofBytes, Option.bind_some, FixedBytes.ofBytes?_bytes]

theorem listOf?_map {α : Type} {read : Tree → Option α} {write : α → Tree} {kept : α → α}
    (h : ∀ a, read (write a) = some (kept a)) (as : List α) :
    listOf? read (.list (as.map write)) = some (as.map kept) := by
  change (as.map write).mapM read = _
  induction as with
  | nil => rfl
  | cons a rest ih => simp [h, ih]

end Tree

namespace Slot

variable {α : Type} {read : Tree → Option α} {write : α → Tree}

theorem nullable?_of_ne {t : Tree} (notNull : t ≠ .null) :
    nullable? read t = (read t).map some := by
  cases t with
  | null => contradiction
  | _ => rfl

theorem optional?_map (h : ∀ a, read (write a) = some a) (notNull : ∀ a, write a ≠ .null)
    (o : Option α) : optional? read (o.map write) = some o := by
  cases o with
  | none => rfl
  | some a =>
    change nullable? read (write a) = some (some a)
    rw [nullable?_of_ne (notNull a), h, Option.map_some]

theorem optional?_text (o : Option String) :
    optional? Tree.text? (o.map .ofText) = some o := by
  have read (s : String) : Tree.text? (.ofText s) = some s := rfl
  exact optional?_map read (fun _ => nofun) o

end Slot

end VenueSigner.Json
