/-!
Pairs of a name and a value, sorted by name, no name twice.
-/

namespace VenueSigner.Json

def Sorted {α : Type} (ms : List (String × α)) : Prop :=
  ms.Pairwise (·.1 < ·.1)

def insertMember {α : Type} (name : String) (a : α) : List (String × α) → List (String × α)
  | [] => [(name, a)]
  | (n, b) :: rest =>
    if name < n then (name, a) :: (n, b) :: rest
    else if name = n then (name, a) :: rest
    else (n, b) :: insertMember name a rest

/-- Pairs sorted by name, the last of equal names having won. -/
def sortMembers {α : Type} (ms : List (String × α)) : List (String × α) :=
  ms.foldl (fun sorted m => insertMember m.1 m.2 sorted) []

theorem mem_insertMember {α : Type} {name : String} {a : α} {m : String × α}
    {ms : List (String × α)} (h : m ∈ insertMember name a ms) : m = (name, a) ∨ m ∈ ms := by
  induction ms with
  | nil => simpa [insertMember] using h
  | cons p rest ih =>
    unfold insertMember at h
    split at h
    · simpa using h
    · split at h
      · rcases List.mem_cons.1 h with h | h
        · exact .inl h
        · exact .inr (List.mem_cons_of_mem _ h)
      · rcases List.mem_cons.1 h with h | h
        · exact .inr (h ▸ List.mem_cons_self)
        · rcases ih h with h | h
          · exact .inl h
          · exact .inr (List.mem_cons_of_mem _ h)

theorem Sorted.insertMember {α : Type} {name : String} {a : α} {ms : List (String × α)}
    (h : Sorted ms) : Sorted (insertMember name a ms) := by
  induction ms with
  | nil => simp [Sorted, Json.insertMember]
  | cons p rest ih =>
    obtain ⟨first, others⟩ := List.pairwise_cons.1 h
    unfold Json.insertMember
    split
    · next before =>
      refine List.pairwise_cons.2 ⟨fun m hm => ?_, h⟩
      rcases List.mem_cons.1 hm with hm | hm
      · exact hm ▸ before
      · exact String.lt_trans before (first m hm)
    · split
      · next same => exact List.pairwise_cons.2 ⟨fun m hm => same ▸ first m hm, others⟩
      · next notBefore different =>
        refine List.pairwise_cons.2 ⟨fun m hm => ?_, ih others⟩
        rcases mem_insertMember hm with hm | hm
        · exact hm ▸ Std.lt_of_le_of_ne (String.not_lt.1 notBefore) (Ne.symm different)
        · exact first m hm

theorem sorted_sortMembers {α : Type} (ms : List (String × α)) : Sorted (sortMembers ms) := by
  have general (sorted : List (String × α)) (h : Sorted sorted) :
      Sorted (ms.foldl (fun sorted m => insertMember m.1 m.2 sorted) sorted) := by
    induction ms generalizing sorted with
    | nil => exact h
    | cons m rest ih => exact ih _ h.insertMember
  exact general [] List.Pairwise.nil

end VenueSigner.Json
