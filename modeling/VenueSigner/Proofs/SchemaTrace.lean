import VenueSigner.Proofs.TypeStringReading
/-!
Encodings that say which definitions they read. Nothing else about them is different. For a struct
these are the definitions in its type string, and those that its members lead to: which ones they
are does not depend on the message, if there is an encoding at all.
-/

namespace VenueSigner.TypedData

open Json (Value)

namespace Schema

variable {s : Schema} {struct n : String} {v : Value}

def spelled (s : Schema) (struct : String) : List (String × List Member) :=
  match s.members? struct with
  | none => []
  | some ms => (struct, ms) :: s.needs struct

/-- The type string of the first struct has a definition of the second one. -/
def Spells (s : Schema) (struct n : String) : Prop :=
  n ∈ (s.spelled struct).map (·.1)

theorem typeText?_eq_spelled (known : s.has struct) :
    s.typeText? struct =
      some (String.join ((s.spelled struct).map fun d => definitionText d.1 d.2)) := by
  obtain ⟨ms, known⟩ := Option.isSome_iff_exists.1 known
  rw [typeText?, spelled, known, Option.map_some, List.map_cons, String.join_cons]

theorem members?_of_mem_spelled {d : String × List Member} (h : d ∈ s.spelled struct) :
    s.members? d.1 = some d.2 := by
  rw [spelled] at h
  split at h
  · contradiction
  · next ms known => exact ((mem_spelled_iff known).1 h).2

theorem spells_iff (known : s.has struct) : s.Spells struct n ↔ s.Reaches struct n := by
  obtain ⟨ms, defined⟩ := Option.isSome_iff_exists.1 known
  rw [Spells, spelled, defined, List.mem_map]
  constructor
  · rintro ⟨d, member, rfl⟩
    exact ((mem_spelled_iff defined).1 member).1
  · intro path
    obtain ⟨ns, found⟩ := Option.isSome_iff_exists.1 (path.has known)
    exact ⟨(n, ns), (mem_spelled_iff defined).2 ⟨path, found⟩, rfl⟩

mutual

def traceValue (s : Schema) (kind : String) (v : Value) : Result (Word × List String) :=
  if kind.toList.getLast? = some ']' then .error (.unsupportedKind kind)
  else if s.has kind then do
    let (b, read) ← s.traceStruct kind v
    return (Keccak.digest b, read)
  else
    match Kind.ofName? kind with
    | some k => do return (← k.encode kind v, [])
    | none => .error (.unsupportedKind kind)
termination_by (sizeOf v, 1, 0)

/-- The encoding of a struct. The definitions in its type string are read first, and then those that
its members need. -/
def traceStruct (s : Schema) (struct : String) (v : Value) : Result (Bytes × List String) :=
  match s.members? struct with
  | none => .error (.unknownStruct struct)
  | some ms =>
    match v with
    | .record object => do
      let front ← s.typeHash struct
      let (words, read) ← s.traceMembers struct object ms
      return (front.bytes ++ words, (s.spelled struct).map (·.1) ++ read)
    | _ => .error (.unexpected struct .record)
termination_by (sizeOf v, 0, 0)

def traceMembers (s : Schema) (struct : String) (object : List (String × Value)) :
    List Member → Result (Bytes × List String)
  | [] => .ok ([], [])
  | m :: rest =>
    match _found : object.lookup m.name with
    | none => .error (.missingMember struct m.name)
    | some v => do
      let (word, first) ← s.traceValue m.kind v
      let (words, others) ← s.traceMembers struct object rest
      return (word.bytes ++ words, first ++ others)
termination_by ms => (sizeOf object, 2, ms.length)
decreasing_by
  · exact Prod.Lex.left _ _ (sizeOf_lookup_lt _found)
  · exact Prod.Lex.right _ (Prod.Lex.right _ (Nat.lt_succ_self _))

end

/-- The digest of a struct, and the structs whose definitions are read for it. -/
def traceHash (s : Schema) (struct : String) (v : Value) : Result (Word × List String) := do
  let (b, read) ← s.traceStruct struct v
  return (Keccak.digest b, read)

section Members

variable {object : List (String × Value)} {m : Member} {rest : List Member}

theorem traceMembers_of_missing (missing : object.lookup m.name = none) :
    s.traceMembers struct object (m :: rest) = .error (.missingMember struct m.name) := by
  rw [traceMembers]
  split
  · rfl
  · next v found => rw [missing] at found; contradiction

theorem traceMembers_of_found (found : object.lookup m.name = some v) :
    s.traceMembers struct object (m :: rest) = do
      let (word, first) ← s.traceValue m.kind v
      let (words, others) ← s.traceMembers struct object rest
      return (word.bytes ++ words, first ++ others) := by
  rw [traceMembers]
  split
  · next missing => rw [found] at missing; contradiction
  · next v' found' =>
    obtain rfl : v = v' := Option.some.inj (found.symm.trans found')
    rfl

end Members

mutual

theorem fst_traceValue (s : Schema) (kind : String) (v : Value) :
    Prod.fst <$> s.traceValue kind v = s.encodeValue kind v := by
  rw [traceValue, encodeValue]
  split
  · rfl
  · split
    · rw [← fst_traceStruct s kind v]
      simp only [map_bind, map_pure, bind_map_left]
    · cases Kind.ofName? kind with
      | none => rfl
      | some k => simp only [map_bind, map_pure, bind_pure]
termination_by (sizeOf v, 1, 0)

theorem fst_traceStruct (s : Schema) (struct : String) (v : Value) :
    Prod.fst <$> s.traceStruct struct v = s.encodeStruct struct v := by
  rw [traceStruct, encodeStruct]
  cases s.members? struct with
  | none => rfl
  | some ms =>
    cases v with
    | null | bool b | number n | text t | list items => rfl
    | record object =>
      simp only [← fst_traceMembers s struct object ms, map_bind, map_pure, bind_map_left]
termination_by (sizeOf v, 0, 0)

theorem fst_traceMembers (s : Schema) (struct : String) (object : List (String × Value))
    (ms : List Member) :
    Prod.fst <$> s.traceMembers struct object ms = s.encodeMembers struct object ms := by
  cases ms with
  | nil => rw [traceMembers, encodeMembers]; rfl
  | cons m rest =>
    cases found : object.lookup m.name with
    | none =>
      rw [traceMembers_of_missing found, encodeMembers_of_missing found]
      rfl
    | some v =>
      rw [traceMembers_of_found found, encodeMembers_of_found found,
        ← fst_traceValue s m.kind v, ← fst_traceMembers s struct object rest]
      simp only [map_bind, map_pure, bind_map_left]
termination_by (sizeOf object, 2, ms.length)
decreasing_by
  · exact Prod.Lex.left _ _ (sizeOf_lookup_lt (by assumption))
  · exact Prod.Lex.right _ (Prod.Lex.right _ (Nat.lt_succ_self _))

end

theorem fst_traceHash (s : Schema) (struct : String) (v : Value) :
    Prod.fst <$> s.traceHash struct v = s.hashStruct struct v := by
  rw [traceHash, hashStruct, ← fst_traceStruct]
  simp only [map_bind, map_pure, bind_map_left]

/-- Members lead from the first struct to one whose type string spells the second one. -/
def Reads (s : Schema) (struct n : String) : Prop :=
  ∃ b, Relation.ReflTransGen s.Contains struct b ∧ s.Spells b n

theorem reads_iff :
    s.Reads struct n ↔ s.Spells struct n ∨ ∃ b, s.Contains struct b ∧ s.Reads b n := by
  constructor
  · rintro ⟨b, path, spells⟩
    obtain rfl | ⟨c, first, rest⟩ := path.cases_head
    · exact .inl spells
    · exact .inr ⟨c, first, b, rest, spells⟩
  · rintro (spells | ⟨c, first, b, rest, spells⟩)
    · exact ⟨struct, .refl, spells⟩
    · exact ⟨b, .head first rest, spells⟩

theorem contains_iff {ms : List Member} (known : s.members? struct = some ms) :
    s.Contains struct n ↔ ∃ m ∈ ms, m.kind = n ∧ s.has n := by
  constructor
  · rintro ⟨ms', known', member, has⟩
    rw [known, Option.some.injEq] at known'
    subst known'
    obtain ⟨m, declared, rfl⟩ := List.mem_map.1 member
    exact ⟨m, declared, rfl, has⟩
  · rintro ⟨m, declared, rfl, has⟩
    exact ⟨ms, known, List.mem_map_of_mem declared, has⟩

mutual

theorem mem_of_traceValue (s : Schema) (kind : String) (v : Value) {x : Word}
    {read : List String} (h : s.traceValue kind v = .ok (x, read)) :
    n ∈ read ↔ s.has kind ∧ s.Reads kind n := by
  rw [traceValue] at h
  split at h
  · contradiction
  · split at h
    · next known =>
      obtain ⟨⟨b, inner⟩, traced, h⟩ := Result.bind_eq_ok.1 h
      cases h
      rw [mem_of_traceStruct s kind v traced]
      exact (and_iff_right known).symm
    · next atom =>
      split at h
      · obtain ⟨_, _, h⟩ := Result.bind_eq_ok.1 h
        cases h
        exact iff_of_false List.not_mem_nil fun struct => atom struct.1
      · contradiction
termination_by (sizeOf v, 1, 0)

theorem mem_of_traceStruct (s : Schema) (struct : String) (v : Value) {b : Bytes}
    {read : List String} (h : s.traceStruct struct v = .ok (b, read)) :
    n ∈ read ↔ s.Reads struct n := by
  rw [traceStruct] at h
  split at h
  · contradiction
  · next ms known =>
    split at h
    · next object =>
      obtain ⟨front, _, h⟩ := Result.bind_eq_ok.1 h
      obtain ⟨⟨words, inner⟩, traced, h⟩ := Result.bind_eq_ok.1 h
      cases h
      rw [List.mem_append, mem_of_traceMembers s struct object ms traced, reads_iff]
      refine or_congr_right ?_
      simp only [contains_iff known]
      constructor
      · rintro ⟨m, declared, has, reads⟩
        exact ⟨m.kind, ⟨m, declared, rfl, has⟩, reads⟩
      · rintro ⟨_, ⟨m, declared, rfl, has⟩, reads⟩
        exact ⟨m, declared, has, reads⟩
    · contradiction
termination_by (sizeOf v, 0, 0)

theorem mem_of_traceMembers (s : Schema) (struct : String) (object : List (String × Value)) :
    ∀ (ms : List Member) {words : Bytes} {read : List String},
      s.traceMembers struct object ms = .ok (words, read) →
        (n ∈ read ↔ ∃ m ∈ ms, s.has m.kind ∧ s.Reads m.kind n)
  | [], _, _, h => by
    rw [traceMembers] at h
    cases h
    simp
  | m :: rest, _, _, h => by
    cases found : object.lookup m.name with
    | none =>
      rw [traceMembers_of_missing found] at h
      contradiction
    | some v =>
      rw [traceMembers_of_found found] at h
      obtain ⟨⟨word, first⟩, tracedFirst, h⟩ := Result.bind_eq_ok.1 h
      obtain ⟨⟨words, others⟩, traced, h⟩ := Result.bind_eq_ok.1 h
      cases h
      rw [List.mem_append, mem_of_traceValue s m.kind v tracedFirst,
        mem_of_traceMembers s struct object rest traced, List.exists_mem_cons_iff]
termination_by ms => (sizeOf object, 2, ms.length)
decreasing_by
  · exact Prod.Lex.left _ _ (sizeOf_lookup_lt (by assumption))
  · exact Prod.Lex.right _ (Prod.Lex.right _ (Nat.lt_succ_self _))

end

/-- What is read for a digest is what members lead to. -/
theorem exists_traceHash {x : Word} (ok : s.hashStruct struct v = .ok x) :
    ∃ read, s.traceHash struct v = .ok (x, read) ∧ ∀ n, n ∈ read ↔ s.Reads struct n := by
  have image := s.fst_traceHash struct v
  rw [ok] at image
  cases traced : s.traceHash struct v with
  | error e =>
    rw [traced] at image
    contradiction
  | ok p =>
    obtain ⟨y, read⟩ := p
    rw [traced] at image
    obtain rfl : y = x := Except.ok.inj image
    obtain ⟨⟨b, read'⟩, traced, h⟩ := Result.bind_eq_ok.1 traced
    cases h
    exact ⟨read, rfl, fun n => mem_of_traceStruct s struct v traced⟩

end Schema

end VenueSigner.TypedData
