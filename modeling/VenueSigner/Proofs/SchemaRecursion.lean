import VenueSigner.Proofs.Meaning
import VenueSigner.Proofs.TypeString
/-!
Structs that refer to each other, in circles or not. Hashing a struct calls itself for its members,
and collecting the structs for a type string calls itself for the kinds of members; both come to an
end, since a member's value lies deeper in the message than the record that holds it, and since no
struct is collected twice. A struct that must contain itself has no message.
-/

namespace VenueSigner

namespace Json.Value

mutual

def depth : Value → Nat
  | list items => itemsDepth items + 1
  | record members => membersDepth members + 1
  | _ => 0

def itemsDepth : List Value → Nat
  | [] => 0
  | v :: rest => max (depth v) (itemsDepth rest)

def membersDepth : List (String × Value) → Nat
  | [] => 0
  | (_, v) :: rest => max (depth v) (membersDepth rest)

end

theorem depth_lookup_lt {name : String} {members : List (String × Value)} {v : Value}
    (h : members.lookup name = some v) : v.depth < (record members).depth := by
  have le : v.depth ≤ membersDepth members := by
    induction members with
    | nil => contradiction
    | cons m rest ih =>
      rw [membersDepth]
      rw [List.lookup_cons] at h
      split at h
      · obtain rfl := Option.some.inj h
        exact Nat.le_max_left _ _
      · exact Nat.le_trans (ih h) (Nat.le_max_right _ _)
  rw [depth]
  exact Nat.lt_succ_of_le le

end Json.Value

/-- A result, unless the calls for it lie too deep. -/
abbrev Bounded (α : Type) := Option (Result α)

def Bounded.andThen {α β : Type} (x : Bounded α) (f : α → Bounded β) : Bounded β :=
  x.bind fun
    | .ok a => f a
    | .error e => some (.error e)

@[simp] theorem Bounded.andThen_ok {α β : Type} (a : α) (f : α → Bounded β) :
    andThen (some (.ok a)) f = f a := rfl

theorem Bounded.andThen_some {α β : Type} (x : Result α) (f : α → Result β) :
    andThen (some x) (fun a => some (f a)) = some (x >>= f) := by
  cases x with
  | error e => rfl
  | ok a => rfl

namespace TypedData.Schema

open Json (Value)

def collectAll (s : Schema) (visit : String → List String → Bounded (List String)) :
    List Member → List String → Bounded (List String)
  | [], found => some (.ok found)
  | m :: rest, found =>
    if s.has m.base then (visit m.base found).andThen (s.collectAll visit rest)
    else s.collectAll visit rest found

/-- Collects a struct and all that its members use, with calls inside each other up to a limit. -/
def collectWithin (s : Schema) : Nat → String → List String → Bounded (List String)
  | 0, _, _ => none
  | calls + 1, name, found =>
    if found.contains name then some (.ok found)
    else
      match s.members? name with
      | none => some (.error (.unknownStruct name))
      | some ms => s.collectAll (s.collectWithin calls) ms (name :: found)

section Collecting

variable {s : Schema} {name : String} {found : List String}

theorem reach_of_found (h : name ∈ found) (rest : List String) :
    s.reach (name :: rest) found = s.reach rest found := by
  rw [reach, dif_pos (by simpa using h)]

theorem reach_of_unknown_head (h : s.members? name = none) (rest : List String) :
    s.reach (name :: rest) found = s.reach rest found := by
  rw [reach]
  split
  · rfl
  · split
    · rfl
    · next ms known => rw [h] at known; contradiction

theorem reach_of_fresh {ms : List Member} (fresh : name ∉ found) (known : s.members? name = some ms)
    (rest : List String) :
    s.reach (name :: rest) found = s.reach (ms.map Member.base ++ rest) (name :: found) := by
  rw [reach, dif_neg (by simpa using fresh)]
  split
  · next unknown => rw [known] at unknown; contradiction
  · next ms' known' =>
    rw [known, Option.some.injEq] at known'
    rw [known']

theorem reach_append (s : Schema) (first later found : List String) :
    s.reach (first ++ later) found = s.reach later (s.reach first found) := by
  fun_induction Schema.reach s first found with
  | case1 found => rfl
  | case2 found name rest seen ih =>
    rw [List.cons_append, reach_of_found (by simpa using seen), ih]
  | case3 found name rest fresh unknown ih =>
    rw [List.cons_append, reach_of_unknown_head unknown, ih]
  | case4 found name rest fresh ms known ih =>
    rw [List.cons_append, reach_of_fresh (by simpa using fresh) known, ← List.append_assoc, ih]

theorem unvisited_anti {more : List String} (h : found ⊆ more) :
    s.unvisited more ≤ s.unvisited found := by
  refine (List.monotone_filter_right _ fun d notMore => ?_).length_le
  simp only [Bool.not_eq_true', List.contains_eq_mem, decide_eq_false_iff_not] at notMore ⊢
  exact fun seen => notMore (h seen)

theorem collectAll_eq {visit : String → List String → Bounded (List String)} {ms : List Member}
    (h : ∀ m ∈ ms, s.has m.base → ∀ more, found ⊆ more →
      visit m.base more = some (.ok (s.reach [m.base] more))) :
    s.collectAll visit ms found = some (.ok (s.reach (ms.map Member.base) found)) := by
  induction ms generalizing found with
  | nil => rw [collectAll, List.map_nil, reach]
  | cons m rest ih =>
    rw [collectAll, List.map_cons, ← List.singleton_append, reach_append]
    split
    · next struct =>
      rw [h m List.mem_cons_self struct found (List.Subset.refl _), Bounded.andThen_ok]
      have grown : found ⊆ s.reach [m.base] found := fun _ => mem_reach_of_found
      exact ih fun m' later struct' more larger =>
        h m' (List.mem_cons_of_mem m later) struct' more (List.Subset.trans grown larger)
    · next atom =>
      have unknown : s.members? m.base = none := by simpa [has] using atom
      rw [reach_of_unknown_head unknown, reach]
      exact ih fun m' later => h m' (List.mem_cons_of_mem m later)

/-- With as many calls inside each other as there are structs to be found, and one more, a struct
and all that it uses are collected. -/
theorem collectWithin_eq (s : Schema) {calls : Nat} (known : s.has name)
    (enough : s.unvisited found < calls) :
    s.collectWithin calls name found = some (.ok (s.reach [name] found)) := by
  induction calls generalizing name found with
  | zero => contradiction
  | succ calls ih =>
    rw [collectWithin]
    split
    · next seen => rw [reach_of_found (by simpa using seen), reach]
    · next fresh =>
      cases defined : s.members? name with
      | none => simp [has, defined] at known
      | some ms =>
        have fewer := unvisited_cons_lt defined fresh
        rw [reach_of_fresh (by simpa using fresh) defined, List.append_nil]
        refine collectAll_eq fun m _ struct more larger => ih struct ?_
        have fewest := s.unvisited_anti larger
        omega

end Collecting

def collectedText (s : Schema) (struct : String) (ms : List Member) (found : List String) :
    String :=
  definitionText struct ms ++ String.join
    ((s.structs.filter fun d => found.contains d.1 && d.1 != struct).map fun d =>
      definitionText d.1 d.2)

def valueWith (s : Schema) (encode : String → Value → Bounded Bytes) (kind : String) (v : Value) :
    Bounded Word :=
  if kind.toList.getLast? = some ']' then some (.error (.unsupportedKind kind))
  else if s.has kind then (encode kind v).andThen fun b => some (.ok (Keccak.digest b))
  else
    match Kind.ofName? kind with
    | some k => some (k.encode kind v)
    | none => some (.error (.unsupportedKind kind))

def membersWith (value : String → Value → Bounded Word) (struct : String)
    (object : List (String × Value)) : List Member → Bounded Bytes
  | [] => some (.ok [])
  | m :: rest =>
    match object.lookup m.name with
    | none => some (.error (.missingMember struct m.name))
    | some v => (value m.kind v).andThen fun word =>
      (membersWith value struct object rest).andThen fun words => some (.ok (word.bytes ++ words))

/-- Encodes a struct with calls inside each other up to a limit. -/
def encodeWithin (s : Schema) : Nat → String → Value → Bounded Bytes
  | 0, _, _ => none
  | calls + 1, struct, v =>
    match s.members? struct with
    | none => some (.error (.unknownStruct struct))
    | some ms =>
      match v with
      | .record object =>
        (s.collectWithin calls struct []).andThen fun found =>
          (membersWith (s.valueWith (s.encodeWithin calls)) struct object ms).andThen fun words =>
            some (.ok ((Keccak.digestText (s.collectedText struct ms found)).bytes ++ words))
      | _ => some (.error (.unexpected struct .record))

def hashWithin (s : Schema) (calls : Nat) (struct : String) (v : Value) : Bounded Word :=
  (s.encodeWithin calls struct v).andThen fun b => some (.ok (Keccak.digest b))

section Hashing

variable {s : Schema} {struct : String} {object : List (String × Value)}

theorem typeHash_eq {ms : List Member} (known : s.members? struct = some ms) :
    s.typeHash struct =
      .ok (Keccak.digestText (s.collectedText struct ms (s.reach [struct] []))) := by
  rw [typeHash, typeText?, known]
  rfl

theorem valueWith_eq {encode : String → Value → Bounded Bytes} {kind : String} {v : Value}
    (h : encode kind v = some (s.encodeStruct kind v)) :
    s.valueWith encode kind v = some (s.encodeValue kind v) := by
  rw [valueWith, encodeValue]
  split
  · rfl
  · split
    · rw [h]
      exact Bounded.andThen_some (s.encodeStruct kind v) fun b => .ok (Keccak.digest b)
    · cases Kind.ofName? kind with
      | none => rfl
      | some k => rfl

theorem membersWith_eq {value : String → Value → Bounded Word} {ms : List Member}
    (h : ∀ m ∈ ms, ∀ v, object.lookup m.name = some v →
      value m.kind v = some (s.encodeValue m.kind v)) :
    membersWith value struct object ms = some (s.encodeMembers struct object ms) := by
  induction ms with
  | nil => rw [membersWith, encodeMembers]
  | cons m rest ih =>
    have others := ih fun m' later => h m' (List.mem_cons_of_mem m later)
    rw [membersWith]
    split
    · next missing => rw [encodeMembers_of_missing missing]
    · next v found =>
      rw [h m List.mem_cons_self v found, others, encodeMembers_of_found found]
      simp only [Bounded.andThen_some]
      rfl

/-- As many calls inside each other as the message is deep, and as there are structs to collect at
the bottom, are enough for the encoding or for the error. -/
theorem encodeWithin_eq (s : Schema) {calls : Nat} {v : Value}
    (enough : s.structs.length + v.depth < calls) :
    s.encodeWithin calls struct v = some (s.encodeStruct struct v) := by
  induction calls generalizing struct v with
  | zero => contradiction
  | succ calls ih =>
    rw [encodeWithin, encodeStruct]
    cases known : s.members? struct with
    | none => rfl
    | some ms =>
      cases v with
      | null | bool b | number n | text t | list items => rfl
      | record object =>
        -- this takes one call, and the members are less deep, so the others are enough for them
        have all : s.unvisited [] ≤ s.structs.length := List.length_filter_le _ _
        have deep : 0 < (Value.record object).depth := by
          rw [Value.depth]
          exact Nat.succ_pos _
        have collected : s.collectWithin calls struct [] = some (.ok (s.reach [struct] [])) :=
          s.collectWithin_eq (by rw [has, known]; rfl) (by omega)
        have members : membersWith (s.valueWith (s.encodeWithin calls)) struct object ms =
            some (s.encodeMembers struct object ms) := by
          refine membersWith_eq fun m _ v found => valueWith_eq (ih ?_)
          have inside := Value.depth_lookup_lt found
          omega
        simp only [collected, members, typeHash_eq known, Bounded.andThen_ok]
        exact Bounded.andThen_some _ fun words => .ok (_ ++ words)

theorem hashWithin_eq (s : Schema) {calls : Nat} {v : Value}
    (enough : s.structs.length + v.depth < calls) :
    s.hashWithin calls struct v = some (s.hashStruct struct v) := by
  rw [hashWithin, s.encodeWithin_eq enough]
  exact Bounded.andThen_some _ fun b => .ok (Keccak.digest b)

end Hashing

def Contains (s : Schema) (a b : String) : Prop :=
  ∃ ms, s.members? a = some ms ∧ b ∈ ms.map Member.kind ∧ s.has b

/-- Members lead from a struct to one that must contain itself. -/
def Endless (s : Schema) (a : String) : Prop :=
  ∃ b, Relation.ReflTransGen s.Contains a b ∧ Relation.TransGen s.Contains b b

section Cycles

variable {s : Schema} {a b : String}

theorem Endless.exists_contains (h : s.Endless a) : ∃ b, s.Contains a b ∧ s.Endless b := by
  obtain ⟨b, path, cycle⟩ := h
  obtain rfl | ⟨c, first, rest⟩ := path.cases_head
  · obtain ⟨c, first, back⟩ := Relation.TransGen.head'_iff.1 cycle
    exact ⟨c, first, a, back, cycle⟩
  · exact ⟨c, first, b, rest, cycle⟩

theorem encodeValue_of_encodeMembers {struct : String} {object : List (String × Value)}
    {ms : List Member} {words : Bytes} (h : s.encodeMembers struct object ms = .ok words) :
    ∀ m ∈ ms, ∃ v w, object.lookup m.name = some v ∧ s.encodeValue m.kind v = .ok w := by
  induction ms generalizing words with
  | nil => intro m member; contradiction
  | cons first rest ih =>
    cases found : object.lookup first.name with
    | none =>
      rw [encodeMembers_of_missing found] at h
      contradiction
    | some v =>
      rw [encodeMembers_of_found found] at h
      obtain ⟨word, encoded, h⟩ := Result.bind_eq_ok.1 h
      obtain ⟨others, more, _⟩ := Result.bind_eq_ok.1 h
      intro m member
      obtain rfl | later := List.mem_cons.1 member
      · exact ⟨v, word, found, encoded⟩
      · exact ih more m later

theorem Contains.encodeStruct_lt {v : Value} {bytes : Bytes} (h : s.Contains a b)
    (ok : s.encodeStruct a v = .ok bytes) :
    ∃ u bytes', u.depth < v.depth ∧ s.encodeStruct b u = .ok bytes' := by
  obtain ⟨ms, known, member, struct⟩ := h
  obtain ⟨m, declared, rfl⟩ := List.mem_map.1 member
  rw [encodeStruct, known] at ok
  cases v with
  | null | bool b | number n | text t | list items => contradiction
  | record object =>
    obtain ⟨front, _, ok⟩ := Result.bind_eq_ok.1 ok
    obtain ⟨words, ok, _⟩ := Result.bind_eq_ok.1 ok
    obtain ⟨u, w, found, encoded⟩ := encodeValue_of_encodeMembers ok m declared
    rw [encodeValue] at encoded
    split at encoded
    · contradiction
    · obtain ⟨bytes', inner, _⟩ := Result.bind_eq_ok.1 encoded
      exact ⟨u, bytes', Value.depth_lookup_lt found, inner⟩

/-- No message is deep enough for an endless struct. -/
theorem Endless.encodeStruct_ne (h : s.Endless a) (v : Value) (bytes : Bytes) :
    s.encodeStruct a v ≠ .ok bytes := by
  induction depth : v.depth using Nat.strongRecOn generalizing a v bytes with
  | ind n ih =>
    intro ok
    obtain ⟨b, contains, endless⟩ := h.exists_contains
    obtain ⟨u, bytes', deeper, inner⟩ := contains.encodeStruct_lt ok
    exact ih u.depth (depth ▸ deeper) endless u bytes' rfl inner

theorem Endless.hashStruct_error (h : s.Endless a) (v : Value) :
    ∃ e, s.hashStruct a v = .error e := by
  cases result : s.hashStruct a v with
  | error e => exact ⟨e, rfl⟩
  | ok w =>
    obtain ⟨bytes, ok, _⟩ := Result.bind_eq_ok.1 result
    exact absurd ok (h.encodeStruct_ne v bytes)

end Cycles

/-- Hashing a struct comes to an end for every message, with an error or without, whichever structs
refer to each other: the calls inside each other are never more than the message is deep and the
schema has structs. When members lead to a struct that must contain itself, there is an error on
every message. -/
theorem hashStruct_ends (s : Schema) (struct : String) :
    (∀ v calls, s.structs.length + v.depth < calls →
      s.hashWithin calls struct v = some (s.hashStruct struct v)) ∧
    ∀ name, Relation.ReflTransGen s.Contains struct name →
      Relation.TransGen s.Contains name name → ∀ v, ∃ e, s.hashStruct struct v = .error e :=
  ⟨fun _ _ => s.hashWithin_eq, fun name path cycle => Endless.hashStruct_error ⟨name, path, cycle⟩⟩

def ring : Schema := .ofList [
  ("Root", [⟨"count", "uint8"⟩, ⟨"first", "Left"⟩]),
  ("Left", [⟨"name", "string"⟩, ⟨"other", "Right"⟩]),
  ("Right", [⟨"other", "Left"⟩])]

theorem hashStruct_ends_ring :
    ring.structs.length + (Value.record []).depth < 5 ∧
      ring.hashWithin 5 "Root" (.record []) = some (ring.hashStruct "Root" (.record [])) ∧
      Relation.ReflTransGen ring.Contains "Root" "Left" ∧
      Relation.TransGen ring.Contains "Left" "Left" ∧
      ∀ v, ∃ e, ring.hashStruct "Root" v = .error e := by
  have enough : ring.structs.length + (Value.record []).depth < 5 := by decide
  have root : ring.Contains "Root" "Left" := ⟨_, rfl, by decide, by decide⟩
  have left : ring.Contains "Left" "Right" := ⟨_, rfl, by decide, by decide⟩
  have right : ring.Contains "Right" "Left" := ⟨_, rfl, by decide, by decide⟩
  have path : Relation.ReflTransGen ring.Contains "Root" "Left" := .single root
  have cycle : Relation.TransGen ring.Contains "Left" "Left" := .tail (.single left) right
  obtain ⟨ends, fails⟩ := hashStruct_ends ring "Root"
  exact ⟨enough, ends (.record []) 5 enough, path, cycle, fails "Left" path cycle⟩

end TypedData.Schema

end VenueSigner
