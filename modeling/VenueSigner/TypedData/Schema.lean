import VenueSigner.Json.Members
/-!
The struct definitions that typed data is described by, the structs that one of them needs, and the
string that spells a struct with all it needs.
-/

namespace VenueSigner.TypedData

/-- A member of a struct: its name, and the name of its kind. -/
structure Member where
  name : String
  kind : String
deriving DecidableEq

/-- Struct definitions, sorted by name. -/
structure Schema where
  structs : List (String × List Member)
  sorted : Json.Sorted structs

namespace Member

def base (m : Member) : String :=
  String.ofList (m.kind.toList.takeWhile (· != '['))

def text (m : Member) : String :=
  m.kind ++ " " ++ m.name

end Member

namespace Schema

def empty : Schema := ⟨[], List.Pairwise.nil⟩

def ofList (structs : List (String × List Member)) : Schema :=
  ⟨Json.sortMembers structs, Json.sorted_sortMembers structs⟩

def members? (s : Schema) (name : String) : Option (List Member) :=
  s.structs.lookup name

def has (s : Schema) (name : String) : Bool :=
  (s.members? name).isSome

/-- The definitions whose names are not among those found. -/
def unvisited (s : Schema) (found : List String) : Nat :=
  (s.structs.filter fun d => !found.contains d.1).length

theorem unvisited_cons_lt {s : Schema} {found : List String} {name : String} {ms : List Member}
    (known : s.members? name = some ms) (fresh : ¬ found.contains name) :
    s.unvisited (name :: found) < s.unvisited found := by
  have member : ∃ d ∈ s.structs, d.1 = name := by
    unfold members? at known
    generalize s.structs = ds at known ⊢
    induction ds with
    | nil => simp at known
    | cons d rest ih =>
      obtain ⟨n, ns⟩ := d
      by_cases same : name = n
      · exact ⟨(n, ns), List.mem_cons_self, same.symm⟩
      · have differs : (name == n) = false := by simpa using same
        have next : List.lookup name rest = some ms := by
          simpa [List.lookup_cons, differs] using known
        obtain ⟨e, he, hn⟩ := ih next
        exact ⟨e, List.mem_cons_of_mem _ he, hn⟩
  obtain ⟨d, inStructs, rfl⟩ := member
  unfold unvisited
  -- no definition of the name is left, and there was one
  have split : s.structs.filter (fun e => !(d.1 :: found).contains e.1) =
      (s.structs.filter fun e => !found.contains e.1).filter (fun e => e.1 != d.1) := by
    rw [List.filter_filter]
    congr 1
    funext e
    by_cases same : e.1 = d.1 <;> simp [same]
  rw [split]
  refine Nat.lt_of_le_of_ne (List.length_filter_le _ _) fun equal => ?_
  have all := List.length_filter_eq_length_iff.1 equal
  have := all d (List.mem_filter.2 ⟨inStructs, by simpa using fresh⟩)
  simp at this

/-- The structs that those in `todo` need, themselves included, and those found before. -/
def reach (s : Schema) (todo found : List String) : List String :=
  match todo with
  | [] => found
  | name :: rest =>
    if _fresh : found.contains name then s.reach rest found
    else
      match _known : s.members? name with
      | none => s.reach rest found
      | some ms => s.reach (ms.map Member.base ++ rest) (name :: found)
termination_by (s.unvisited found, todo.length)
decreasing_by
  · exact Prod.Lex.right _ (Nat.lt_succ_self _)
  · exact Prod.Lex.right _ (Nat.lt_succ_self _)
  · exact Prod.Lex.left _ _ (unvisited_cons_lt _known _fresh)

def needs (s : Schema) (name : String) : List (String × List Member) :=
  let found := s.reach [name] []
  s.structs.filter fun d => found.contains d.1 && d.1 != name

def definitionText (name : String) (ms : List Member) : String :=
  name ++ "(" ++ ",".intercalate (ms.map Member.text) ++ ")"

/-- The type string of a struct: its definition, then those it needs in the order of their names. -/
def typeText? (s : Schema) (name : String) : Option String :=
  (s.members? name).map fun ms =>
    definitionText name ms ++ String.join ((s.needs name).map fun d => definitionText d.1 d.2)

end Schema

end VenueSigner.TypedData
