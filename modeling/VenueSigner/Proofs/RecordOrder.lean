import VenueSigner.Proofs.ValueText
/-!
Records in the order of their names. Members of different names have one order, which is that of
every value that is read, and a member can be taken out before it or after.
-/

namespace VenueSigner

namespace Json

variable {α β : Type}

theorem insertMember_map (f : α → β) (name : String) (a : α) (ms : List (String × α)) :
    insertMember name (f a) (ms.map fun m => (m.1, f m.2)) =
      (insertMember name a ms).map fun m => (m.1, f m.2) := by
  induction ms with
  | nil => rfl
  | cons m rest ih =>
    simp only [List.map_cons, insertMember, ih]
    split
    · rfl
    · split <;> rfl

theorem sortMembers_map (f : α → β) (ms : List (String × α)) :
    sortMembers (ms.map fun m => (m.1, f m.2)) = (sortMembers ms).map fun m => (m.1, f m.2) := by
  induction ms using List.reverseRecOn with
  | nil => rfl
  | append_singleton ms last ih =>
    unfold sortMembers at ih ⊢
    rw [List.map_append, List.foldl_append, ih, List.foldl_append]
    exact insertMember_map f last.1 last.2 _

theorem insertMember_perm {name : String} {ms : List (String × α)} (new : name ∉ ms.map (·.1))
    (a : α) : (insertMember name a ms).Perm ((name, a) :: ms) := by
  induction ms with
  | nil => exact .refl _
  | cons m rest ih =>
    rw [List.map_cons, List.mem_cons, not_or] at new
    unfold insertMember
    split
    · exact .refl _
    · rw [if_neg new.1]
      exact ((ih new.2).cons m).trans (.swap ..)

theorem sortMembers_perm {ms : List (String × α)} (distinct : (ms.map (·.1)).Nodup) :
    (sortMembers ms).Perm ms := by
  induction ms using List.reverseRecOn with
  | nil => exact .refl _
  | append_singleton ms last ih =>
    rw [List.map_append, List.nodup_append] at distinct
    obtain ⟨before, -, apart⟩ := distinct
    have earlier := ih before
    have new : last.1 ∉ (sortMembers ms).map (·.1) := by
      rw [(earlier.map _).mem_iff]
      exact fun h => apart _ h _ List.mem_cons_self rfl
    have last' := (insertMember_perm new last.2).trans (earlier.cons last)
    unfold sortMembers at last' ⊢
    rw [List.foldl_append]
    exact last'.trans (List.perm_append_singleton last ms).symm

theorem Sorted.eq_of_perm {ms ns : List (String × α)} (hm : Sorted ms) (hn : Sorted ns)
    (same : ms.Perm ns) : ms = ns :=
  same.eq_of_pairwise (fun a _ _ _ less more =>
    absurd (String.lt_trans less more) (String.lt_irrefl a.1)) hm hn

theorem filter_sortMembers (keep : String × α → Bool) {ms : List (String × α)}
    (distinct : (ms.map (·.1)).Nodup) :
    (sortMembers ms).filter keep = sortMembers (ms.filter keep) := by
  have distinct' : ((ms.filter keep).map (·.1)).Nodup :=
    distinct.sublist (List.filter_sublist.map _)
  refine Sorted.eq_of_perm ((sorted_sortMembers ms).filter keep) (sorted_sortMembers _) ?_
  exact ((sortMembers_perm distinct).filter keep).trans (sortMembers_perm distinct').symm

namespace Value

/-- In every record of the value the members are in the order of their names. -/
inductive Ordered : Value → Prop
  | null : Ordered .null
  | bool (b : Bool) : Ordered (.bool b)
  | number (n : Number) : Ordered (.number n)
  | text (s : String) : Ordered (.text s)
  | list {items : List Value} (all : ∀ v ∈ items, Ordered v) : Ordered (.list items)
  | record {members : List (String × Value)} (sorted : Sorted members)
    (all : ∀ m ∈ members, Ordered m.2) : Ordered (.record members)

theorem hereditary_ordered : Hereditary fun _ v => v.Ordered where
  null _ := .null
  bool _ b := .bool b
  number _ _ n _ := .number n
  text _ s := .text s
  list _ _ all := .list all
  record _ ms all := .record (sorted_sortMembers ms) fun m hm => all m (mem_sortMembers hm)

theorem ordered_of_ofTree? {depth : ℕ} {t : Tree} {v : Value} (h : ofTree? depth t = some v) :
    v.Ordered :=
  hereditary_ordered.of_ofTree? depth t h

def without (name : String) : Value → Value
  | record members => .record (members.filter (·.1 != name))
  | v => v

theorem Ordered.without {v : Value} (h : v.Ordered) (name : String) : (v.without name).Ordered := by
  cases h with
  | record sorted all =>
    exact .record (sorted.filter _) fun m hm => all m (List.mem_of_mem_filter hm)
  | null => exact .null
  | bool b => exact .bool b
  | number n => exact .number n
  | text s => exact .text s
  | list all => exact .list all

theorem memberTrees_eq (ms : List (String × Value)) :
    memberTrees ms = ms.map fun m => (some m.1, m.2.toTree) := by
  induction ms with
  | nil => rfl
  | cons m rest ih => rw [memberTrees, ih, List.map_cons]

theorem toTree_record (ms : List (String × Value)) :
    (record ms).toTree = Tree.ofMembers (ms.map fun m => (m.1, m.2.toTree)) := by
  rw [toTree, memberTrees_eq, Tree.ofMembers, List.map_map]
  rfl

end Value

namespace Tree

variable {depth : ℕ}

/-- The tree is read as a value that is written as the same tree. -/
def Stands (depth : ℕ) (t : Tree) : Prop :=
  ∃ v, Value.ofTree? depth t = some v ∧ v.toTree = t

theorem stands_ofText (s : String) : Stands depth (ofText s) :=
  ⟨.text s, rfl, rfl⟩

theorem stands_list {ts : List Tree} (all : ∀ t ∈ ts, Stands depth t) :
    Stands (depth + 1) (list ts) := by
  have items : ∃ vs, Value.ofItems? depth ts = some vs ∧ Value.itemTrees vs = ts := by
    induction ts with
    | nil => exact ⟨[], rfl, rfl⟩
    | cons t rest ih =>
      obtain ⟨v, first, same⟩ := all t List.mem_cons_self
      obtain ⟨vs, others, alike⟩ := ih fun u hu => all u (List.mem_cons_of_mem _ hu)
      refine ⟨v :: vs, ?_, by rw [Value.itemTrees, same, alike]⟩
      rw [Value.ofItems?, first, others]
      rfl
  obtain ⟨vs, read, same⟩ := items
  exact ⟨.list vs, by rw [Value.ofTree?, read, Option.map_some], by rw [Value.toTree, same]⟩

/-- A record of such trees is read as the record of their values, sorted. -/
theorem exists_ofTree?_ofMembers {ms : List (String × Tree)} (all : ∀ m ∈ ms, Stands depth m.2) :
    ∃ vs : List (String × Value), (vs.map fun m => (m.1, m.2.toTree)) = ms ∧
      Value.ofTree? (depth + 1) (ofMembers ms) = some (.record (sortMembers vs)) := by
  have members : ∃ vs : List (String × Value), (vs.map fun m => (m.1, m.2.toTree)) = ms ∧
      Value.ofMembers? depth (ms.map fun m => (some m.1, m.2)) = some vs := by
    induction ms with
    | nil => exact ⟨[], rfl, rfl⟩
    | cons m rest ih =>
      obtain ⟨v, first, same⟩ := all m List.mem_cons_self
      obtain ⟨vs, alike, others⟩ := ih fun u hu => all u (List.mem_cons_of_mem _ hu)
      refine ⟨(m.1, v) :: vs, by rw [List.map_cons, same, alike], ?_⟩
      rw [List.map_cons, Value.ofMembers?, first, others]
      rfl
  obtain ⟨vs, alike, read⟩ := members
  exact ⟨vs, alike, by rw [ofMembers, Value.ofTree?, read, Option.map_some]⟩

theorem stands_ofMembers {ms : List (String × Tree)} (sorted : Sorted ms)
    (all : ∀ m ∈ ms, Stands depth m.2) : Stands (depth + 1) (ofMembers ms) := by
  obtain ⟨vs, alike, read⟩ := exists_ofTree?_ofMembers all
  refine ⟨_, read, ?_⟩
  rw [Value.toTree_record, ← sortMembers_map, alike, sortMembers_of_sorted sorted]

theorem exists_without {ms : List (String × Tree)} (distinct : (ms.map (·.1)).Nodup)
    (all : ∀ m ∈ ms, Stands depth m.2) (name : String) :
    ∃ v, Value.ofTree? (depth + 1) (ofMembers ms) = some v ∧
      (v.without name).toTree = ofMembers (sortMembers (ms.filter (·.1 != name))) := by
  obtain ⟨vs, alike, read⟩ := exists_ofTree?_ofMembers all
  have distinct' : (vs.map (·.1)).Nodup := by
    rwa [← alike, List.map_map] at distinct
  refine ⟨_, read, ?_⟩
  rw [Value.without, filter_sortMembers _ distinct', Value.toTree_record, ← sortMembers_map,
    ← alike, List.filter_map]
  rfl

end Tree

end Json

end VenueSigner
