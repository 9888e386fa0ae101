import Mathlib.Data.List.Forall2
import Mathlib.Data.List.Induction
import VenueSigner.Proofs.JsonRecord
import VenueSigner.Proofs.NumberText
/-!
Values survive being written as JSON, whatever is nested in them. The members of a record are in the
order of their names, before and after, and names, texts and integers are read as they were. Only
binary numbers may come back as neighbours of themselves.
-/

namespace VenueSigner.Json

variable {α : Type}

theorem mem_sortMembers {m : String × α} {ms : List (String × α)} (h : m ∈ sortMembers ms) :
    m ∈ ms := by
  induction ms using List.reverseRecOn with
  | nil => exact h
  | append_singleton ms last ih =>
    rw [sortMembers, List.foldl_append] at h
    obtain rfl | earlier := mem_insertMember h
    · exact List.mem_append_right _ List.mem_cons_self
    · exact List.mem_append_left _ (ih earlier)

theorem insertMember_of_last {name : String} {a : α} {ms : List (String × α)}
    (last : ∀ m ∈ ms, m.1 < name) : insertMember name a ms = ms ++ [(name, a)] := by
  induction ms with
  | nil => rfl
  | cons m rest ih =>
    have before := last m List.mem_cons_self
    have notBefore : ¬ name < m.1 := fun after =>
      String.lt_irrefl name (String.lt_trans after before)
    have different : name ≠ m.1 := fun same => String.lt_irrefl m.1 (same ▸ before)
    rw [insertMember, if_neg notBefore, if_neg different,
      ih fun p hp => last p (List.mem_cons_of_mem _ hp), List.cons_append]

theorem sortMembers_of_sorted {ms : List (String × α)} (h : Sorted ms) : sortMembers ms = ms := by
  induction ms using List.reverseRecOn with
  | nil => rfl
  | append_singleton ms last ih =>
    obtain ⟨sorted, -, before⟩ := List.pairwise_append.1 h
    have earlier := ih sorted
    rw [sortMembers] at earlier
    rw [sortMembers, List.foldl_append, earlier]
    exact insertMember_of_last fun m hm => before m hm last List.mem_cons_self

theorem sorted_iff {ms : List (String × α)} : Sorted ms ↔ (ms.map (·.1)).Pairwise (· < ·) :=
  List.pairwise_map.symm

namespace Value

mutual

/-- The value with all its binary numbers made one. -/
def blur : Value → Value
  | null => null
  | bool b => bool b
  | number n => number n.blur
  | text s => text s
  | list items => list (blurItems items)
  | record members => record (blurMembers members)

def blurItems : List Value → List Value
  | [] => []
  | v :: rest => blur v :: blurItems rest

def blurMembers : List (String × Value) → List (String × Value)
  | [] => []
  | (k, v) :: rest => (k, blur v) :: blurMembers rest

end

theorem lookup_blurMembers (name : String) (ms : List (String × Value)) :
    (blurMembers ms).lookup name = (ms.lookup name).map blur := by
  induction ms with
  | nil => rfl
  | cons m rest ih =>
    obtain ⟨k, v⟩ := m
    rw [blurMembers, List.lookup_cons, List.lookup_cons]
    cases name == k with
    | true => rfl
    | false => exact ih

def Reads (R : Value → Value → Prop) (depth : ℕ) (v : Value) : Prop :=
  ∃ w, ofTree? depth v.toTree = some w ∧ R w v

variable {R : Value → Value → Prop} {depth : ℕ}

theorem exists_ofItems? {vs : List Value} (all : ∀ v ∈ vs, Reads R depth v) :
    ∃ ws, ofItems? depth (itemTrees vs) = some ws ∧ List.Forall₂ R ws vs := by
  induction vs with
  | nil => exact ⟨[], rfl, .nil⟩
  | cons v rest ih =>
    obtain ⟨w, first, same⟩ := all v List.mem_cons_self
    obtain ⟨ws, others, alike⟩ := ih fun u hu => all u (List.mem_cons_of_mem _ hu)
    refine ⟨w :: ws, ?_, .cons same alike⟩
    rw [itemTrees, ofItems?, first, others]
    rfl

theorem exists_ofMembers? {ms : List (String × Value)} (all : ∀ m ∈ ms, Reads R depth m.2) :
    ∃ ws, ofMembers? depth (memberTrees ms) = some ws ∧
      List.Forall₂ (fun w m => w.1 = m.1 ∧ R w.2 m.2) ws ms := by
  induction ms with
  | nil => exact ⟨[], rfl, .nil⟩
  | cons m rest ih =>
    obtain ⟨k, v⟩ := m
    obtain ⟨w, first, same⟩ := all (k, v) List.mem_cons_self
    obtain ⟨ws, others, alike⟩ := ih fun u hu => all u (List.mem_cons_of_mem _ hu)
    refine ⟨(k, w) :: ws, ?_, .cons ⟨rfl, same⟩ alike⟩
    rw [memberTrees, ofMembers?, first, others]
    rfl

theorem exists_ofTree?_record {ms : List (String × Value)} (sorted : Sorted ms)
    (all : ∀ m ∈ ms, Reads R depth m.2) :
    ∃ ws, ofTree? (depth + 1) (record ms).toTree = some (record ws) ∧
      List.Forall₂ (fun w m => w.1 = m.1 ∧ R w.2 m.2) ws ms := by
  obtain ⟨ws, read, alike⟩ := exists_ofMembers? all
  have names : ws.map (·.1) = ms.map (·.1) := by
    rw [← List.forall₂_eq_eq_eq, List.forall₂_map_left_iff, List.forall₂_map_right_iff]
    exact alike.imp fun _ _ same => same.1
  have inOrder : Sorted ws := by
    rw [sorted_iff, names]
    exact sorted_iff.1 sorted
  refine ⟨ws, ?_, alike⟩
  rw [toTree, ofTree?, read, Option.map_some, sortMembers_of_sorted inOrder]

theorem blurItems_congr {vs ws : List Value} (h : List.Forall₂ (fun w v => w.blur = v.blur) ws vs) :
    blurItems ws = blurItems vs := by
  induction h with
  | nil => rfl
  | cons same _ ih => rw [blurItems, blurItems, same, ih]

theorem blurMembers_congr {ms ns : List (String × Value)}
    (h : List.Forall₂ (fun n m => n.1 = m.1 ∧ n.2.blur = m.2.blur) ns ms) :
    blurMembers ns = blurMembers ms := by
  induction h with
  | nil => rfl
  | @cons n m _ _ same _ ih =>
    obtain ⟨k, v⟩ := n
    obtain ⟨k', v'⟩ := m
    obtain ⟨rfl, values⟩ := same
    rw [blurMembers, blurMembers, values, ih]

/-- A value is read again, up to its binary numbers. -/
abbrev Survives (depth : ℕ) (v : Value) : Prop :=
  Reads (fun w v => w.blur = v.blur) depth v

structure Hereditary (P : ℕ → Value → Prop) : Prop where
  null : ∀ depth, P depth null
  bool : ∀ depth b, P depth (bool b)
  number : ∀ depth l n, Number.ofLiteral? l = some n → P depth (number n)
  text : ∀ depth s, P depth (text s)
  list : ∀ depth vs, (∀ v ∈ vs, P depth v) → P (depth + 1) (list vs)
  record : ∀ depth ms, (∀ m ∈ ms, P depth m.2) → P (depth + 1) (record (sortMembers ms))

mutual

/-- Such a property holds of every value that is read. The recursion follows the tree that the value
is read from. -/
theorem Hereditary.of_ofTree? {P : ℕ → Value → Prop} (h : Hereditary P) (depth : ℕ) {v : Value} :
    ∀ t : Tree, ofTree? depth t = some v → P depth v
  | .null, read => by
    rw [ofTree?] at read
    exact Option.some.inj read ▸ h.null depth
  | .bool b, read => by
    rw [ofTree?] at read
    exact Option.some.inj read ▸ h.bool depth b
  | .number l, read => by
    rw [ofTree?] at read
    obtain ⟨n, number, rfl⟩ := Option.map_eq_some_iff.1 read
    exact h.number depth l n number
  | .text s, read => by
    rw [ofTree?] at read
    obtain ⟨t, -, rfl⟩ := Option.map_eq_some_iff.1 read
    exact h.text depth t
  | .list items, read => by
    cases depth with
    | zero => simp [ofTree?] at read
    | succ depth =>
      rw [ofTree?] at read
      obtain ⟨vs, parts, rfl⟩ := Option.map_eq_some_iff.1 read
      exact h.list depth vs (h.of_ofItems? depth items parts)
  | .record members, read => by
    cases depth with
    | zero => simp [ofTree?] at read
    | succ depth =>
      rw [ofTree?] at read
      obtain ⟨ms, parts, rfl⟩ := Option.map_eq_some_iff.1 read
      exact h.record depth ms (h.of_ofMembers? depth members parts)

theorem Hereditary.of_ofItems? {P : ℕ → Value → Prop} (h : Hereditary P) (depth : ℕ)
    {vs : List Value} :
    ∀ items : List Tree, ofItems? depth items = some vs → ∀ v ∈ vs, P depth v
  | [], read => by
    rw [ofItems?] at read
    obtain rfl := Option.some.inj read
    exact fun v hv => absurd hv List.not_mem_nil
  | t :: rest, read => by
    rw [ofItems?] at read
    obtain ⟨v, first, read⟩ := Option.bind_eq_some_iff.1 read
    obtain ⟨us, others, read⟩ := Option.bind_eq_some_iff.1 read
    obtain rfl := Option.some.inj read
    have head := h.of_ofTree? depth t first
    have tail := h.of_ofItems? depth rest others
    exact List.forall_mem_cons.2 ⟨head, tail⟩

theorem Hereditary.of_ofMembers? {P : ℕ → Value → Prop} (h : Hereditary P) (depth : ℕ)
    {ms : List (String × Value)} :
    ∀ members : List (Option String × Tree), ofMembers? depth members = some ms →
      ∀ m ∈ ms, P depth m.2
  | [], read => by
    rw [ofMembers?] at read
    obtain rfl := Option.some.inj read
    exact fun m hm => absurd hm List.not_mem_nil
  | (k, t) :: rest, read => by
    rw [ofMembers?] at read
    obtain ⟨name, -, read⟩ := Option.bind_eq_some_iff.1 read
    obtain ⟨v, first, read⟩ := Option.bind_eq_some_iff.1 read
    obtain ⟨us, others, read⟩ := Option.bind_eq_some_iff.1 read
    obtain rfl := Option.some.inj read
    have head := h.of_ofTree? depth t first
    have tail := h.of_ofMembers? depth rest others
    exact List.forall_mem_cons.2 ⟨head, tail⟩

end

theorem hereditary_survives : Hereditary Survives where
  null _ := ⟨.null, rfl, rfl⟩
  bool _ b := ⟨.bool b, rfl, rfl⟩
  text _ s := ⟨.text s, rfl, rfl⟩
  number depth l n read := by
    obtain ⟨m, again, same⟩ := Number.exists_ofLiteral?_literal read
    refine ⟨.number m, by rw [toTree, ofTree?, again, Option.map_some], ?_⟩
    simp only [blur, same]
  list depth vs all := by
    obtain ⟨ws, again, same⟩ := exists_ofItems? all
    refine ⟨.list ws, by rw [toTree, ofTree?, again, Option.map_some], ?_⟩
    simp only [blur, blurItems_congr same]
  record depth ms all := by
    obtain ⟨ws, again, same⟩ := exists_ofTree?_record (sorted_sortMembers ms)
      fun m hm => all m (mem_sortMembers hm)
    refine ⟨.record ws, again, ?_⟩
    simp only [blur, blurMembers_congr same]

/-- A value that was read survives being written. -/
theorem survives_of_ofTree? (depth : ℕ) {v : Value} (t : Tree) (h : ofTree? depth t = some v) :
    Survives depth v :=
  hereditary_survives.of_ofTree? depth t h

theorem reads_text (s : String) : Reads (· = ·) depth (.text s) :=
  ⟨.text s, rfl, rfl⟩

theorem reads_int {n : Int} (low : -2 ^ 63 ≤ n) (high : n < 2 ^ 64) :
    Reads (· = ·) depth (.number (.int n)) := by
  refine ⟨.number (.int n), ?_, rfl⟩
  rw [toTree, Number.literal, ofTree?, Number.ofLiteral?_ofInt low high, Option.map_some]

theorem ofTree?_toTree_ofMembers {ms : List (String × Value)}
    (all : ∀ m ∈ ms, Reads (· = ·) depth m.2) :
    ofTree? (depth + 1) (ofMembers ms).toTree = some (ofMembers ms) := by
  obtain ⟨ws, read, same⟩ := exists_ofTree?_record (sorted_sortMembers ms)
    fun m hm => all m (mem_sortMembers hm)
  have equal : ws = sortMembers ms := by
    rw [← List.forall₂_eq_eq_eq]
    exact same.imp fun _ _ parts => Prod.ext parts.1 parts.2
  rw [ofMembers, read, equal]

end Value

theorem lookup_eq_of_perm {ms ns : List (String × α)} (arranged : ms.Perm ns)
    (distinct : (ns.map (·.1)).Nodup) (name : String) : ms.lookup name = ns.lookup name := by
  have distinct' : (ms.map (·.1)).Nodup := (arranged.map _).nodup_iff.2 distinct
  refine Option.ext fun a => ?_
  rw [lookup_eq_some_iff distinct', lookup_eq_some_iff distinct, arranged.mem_iff]

theorem Tree.slots?_eq_of_perm {ms ns : List (String × Tree)} (arranged : ms.Perm ns)
    (distinct : (ns.map (·.1)).Nodup) (names : List String) :
    (ofMembers ms).slots? names = (ofMembers ns).slots? names := by
  have distinct' : (ms.map (·.1)).Nodup := (arranged.map _).nodup_iff.2 distinct
  have found := funext (lookup_eq_of_perm arranged distinct)
  rw [slots?_ofMembers distinct', slots?_ofMembers distinct, found]

end VenueSigner.Json
