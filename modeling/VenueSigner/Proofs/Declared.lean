import VenueSigner.Proofs.MessageCommitment
import VenueSigner.Proofs.SchemaRecursion
/-!
What a digest depends on. Of a message it is the members that the schema declares, at any depth, and
of a schema it is the structs that kinds of members lead to: nothing else that is added or changed
makes a difference to the digest or to the error. Without a declared member there is no digest.
-/

namespace VenueSigner.TypedData

open Json (Value)

theorem Kind.encode_list (k : Kind) (name : String) (items others : List Value) :
    k.encode name (.list items) = k.encode name (.list others) := by
  cases k <;> rfl

theorem Kind.encode_record (k : Kind) (name : String) (object other : List (String × Value)) :
    k.encode name (.record object) = k.encode name (.record other) := by
  cases k <;> rfl

namespace Schema

def Declares (s : Schema) (struct : String) (m : Member) : Prop :=
  ∃ ms, s.members? struct = some ms ∧ m ∈ ms

/-- Two values of a kind are the same but for what the schema does not declare: the items of lists,
and the members of records that the kind, if it is a struct, does not have. -/
inductive Agree (s : Schema) : String → Value → Value → Prop
  | same {kind : String} (v : Value) : Agree s kind v v
  | list {kind : String} (items others : List Value) : Agree s kind (.list items) (.list others)
  | record {kind : String} {object other : List (String × Value)}
      (present : ∀ m, s.Declares kind m →
        (object.lookup m.name = none ↔ other.lookup m.name = none))
      (agree : ∀ m, s.Declares kind m → ∀ v w, object.lookup m.name = some v →
        other.lookup m.name = some w → Agree s m.kind v w) :
      Agree s kind (.record object) (.record other)

section Agreeing

variable {s : Schema} {kind struct name : String} {v w : Value}
  {object other : List (String × Value)}

theorem Agree.insert (undeclared : ∀ m, s.Declares struct m → m.name ≠ name) :
    s.Agree struct (.record object) (.record (Json.insertMember name v object)) := by
  have kept {m : Member} (declared : s.Declares struct m) :
      (Json.insertMember name v object).lookup m.name = object.lookup m.name := by
    have differs : (m.name == name) = false := beq_eq_false_iff_ne.2 (undeclared m declared)
    rw [Json.lookup_insertMember, differs]
    rfl
  refine .record (fun m declared => by rw [kept declared]) fun m declared v w found found' => ?_
  rw [kept declared, found, Option.some.injEq] at found'
  exact found' ▸ .same v

theorem Agree.inside (found : object.lookup name = some v)
    (agree : ∀ m, s.Declares struct m → m.name = name → s.Agree m.kind v w) :
    s.Agree struct (.record object) (.record (Json.insertMember name w object)) := by
  refine .record (fun m _ => ?_) fun m declared u x found' found'' => ?_
  · rw [Json.lookup_insertMember]
    by_cases same : m.name = name
    · simp [same, found]
    · simp [same]
  · rw [Json.lookup_insertMember] at found''
    by_cases same : m.name = name
    · rw [same, beq_self_eq_true, if_pos rfl, Option.some.injEq] at found''
      rw [same, found, Option.some.injEq] at found'
      exact found' ▸ found'' ▸ agree m declared same
    · rw [if_neg (by simpa using same), found', Option.some.injEq] at found''
      exact found'' ▸ .same u

theorem encodeMembers_congr {ms : List Member}
    (present : ∀ m ∈ ms, object.lookup m.name = none ↔ other.lookup m.name = none)
    (same : ∀ m ∈ ms, ∀ v w, object.lookup m.name = some v → other.lookup m.name = some w →
      s.encodeValue m.kind v = s.encodeValue m.kind w) :
    s.encodeMembers struct object ms = s.encodeMembers struct other ms := by
  induction ms with
  | nil => rw [encodeMembers, encodeMembers]
  | cons m rest ih =>
    have others := ih (fun m' later => present m' (List.mem_cons_of_mem m later))
      fun m' later => same m' (List.mem_cons_of_mem m later)
    have here := present m List.mem_cons_self
    cases found : object.lookup m.name with
    | none =>
      rw [encodeMembers_of_missing found, encodeMembers_of_missing (here.1 found)]
    | some v =>
      cases found' : other.lookup m.name with
      | none => rw [here.2 found'] at found; contradiction
      | some w =>
        rw [encodeMembers_of_found found, encodeMembers_of_found found',
          same m List.mem_cons_self v w found found', others]

theorem encodeValue_congr (structs : s.encodeStruct kind v = s.encodeStruct kind w)
    (atoms : ∀ k : Kind, k.encode kind v = k.encode kind w) :
    s.encodeValue kind v = s.encodeValue kind w := by
  rw [encodeValue, encodeValue, structs]
  simp only [atoms]

theorem Agree.encode_eq (h : s.Agree kind v w) :
    s.encodeStruct kind v = s.encodeStruct kind w ∧
      s.encodeValue kind v = s.encodeValue kind w := by
  induction h with
  | same v => exact ⟨rfl, rfl⟩
  | @list kind items others =>
    have structs : s.encodeStruct kind (.list items) = s.encodeStruct kind (.list others) := by
      rw [encodeStruct, encodeStruct]
    exact ⟨structs, encodeValue_congr structs fun k => k.encode_list kind items others⟩
  | @record kind object other present _ ih =>
    have structs : s.encodeStruct kind (.record object) = s.encodeStruct kind (.record other) := by
      rw [encodeStruct, encodeStruct]
      cases known : s.members? kind with
      | none => rfl
      | some ms =>
        have members : s.encodeMembers kind object ms = s.encodeMembers kind other ms :=
          encodeMembers_congr (fun m member => present m ⟨ms, known, member⟩)
            fun m member v w found found' => (ih m ⟨ms, known, member⟩ v w found found').2
        simp only [members]
    exact ⟨structs, encodeValue_congr structs fun k => k.encode_record kind object other⟩

theorem Agree.hashStruct_eq (h : s.Agree struct v w) :
    s.hashStruct struct v = s.hashStruct struct w := by
  rw [hashStruct, hashStruct, h.encode_eq.1]

end Agreeing

def Mentions (s : Schema) (a b : String) : Prop :=
  ∃ m, s.Declares a m ∧ (b = m.kind ∨ b = m.base)

/-- Two schemas define the same under names that mention no other names. -/
structure SameOn (s t : Schema) (names : String → Prop) : Prop where
  defined : ∀ n, names n → s.members? n = t.members? n
  closed : ∀ a b, names a → s.Mentions a b → names b

namespace SameOn

variable {s t : Schema} {names : String → Prop} {a b : String}

theorem has_eq (h : SameOn s t names) (named : names a) : s.has a = t.has a := by
  rw [has, has, h.defined a named]

theorem symm (h : SameOn s t names) : SameOn t s names where
  defined n named := (h.defined n named).symm
  closed a b named := by
    rintro ⟨m, ⟨ms, known, member⟩, mention⟩
    exact h.closed a b named ⟨m, ⟨ms, (h.defined a named).trans known, member⟩, mention⟩

theorem reaches (h : SameOn s t names) (named : names a) (path : s.Reaches a b) :
    names b ∧ t.Reaches a b := by
  induction path with
  | refl => exact ⟨named, .refl⟩
  | @tail b c _ last ih =>
    obtain ⟨here, before⟩ := ih
    obtain ⟨ms, known, member, struct⟩ := last
    obtain ⟨m, declared, rfl⟩ := List.mem_map.1 member
    have next : names m.base := h.closed b m.base here ⟨m, ⟨ms, known, declared⟩, .inr rfl⟩
    have used : t.Uses b m.base :=
      ⟨ms, (h.defined b here).symm.trans known, member, (h.has_eq next).symm.trans struct⟩
    exact ⟨next, .tail before used⟩

theorem mem_needs (h : SameOn s t names) (named : names a) (struct : s.has a)
    {d : String × List Member} (needed : d ∈ s.needs a) : d ∈ t.needs a := by
  obtain ⟨other, path, known⟩ := (mem_needs_iff struct).1 needed
  obtain ⟨here, path'⟩ := h.reaches named path
  exact (mem_needs_iff ((h.has_eq named).symm.trans struct)).2
    ⟨other, path', (h.defined d.1 here).symm.trans known⟩

theorem needs_eq (h : SameOn s t names) (named : names a) (struct : s.has a) :
    s.needs a = t.needs a := by
  have ordered (s : Schema) : (s.needs a).Pairwise (·.1 < ·.1) :=
    s.sorted.sublist List.filter_sublist
  have distinct (s : Schema) : (s.needs a).Nodup := by
    refine List.Pairwise.imp ?_ (ordered s)
    rintro d _ less rfl
    exact String.lt_irrefl d.1 less
  have struct' : t.has a := (h.has_eq named).symm.trans struct
  have perm : (s.needs a).Perm (t.needs a) :=
    (List.perm_ext_iff_of_nodup (distinct s) (distinct t)).2 fun d =>
      ⟨h.mem_needs named struct, h.symm.mem_needs named struct'⟩
  exact perm.eq_of_pairwise
    (fun d e _ _ before after => absurd (String.lt_trans before after) (String.lt_irrefl _))
    (ordered s) (ordered t)

theorem typeText?_eq (h : SameOn s t names) (named : names a) : s.typeText? a = t.typeText? a := by
  rw [typeText?, typeText?, ← h.defined a named]
  cases known : s.members? a with
  | none => rfl
  | some ms =>
    have struct : s.has a := by rw [has, known]; rfl
    rw [Option.map_some, Option.map_some, h.needs_eq named struct]

theorem typeHash_eq (h : SameOn s t names) (named : names a) : s.typeHash a = t.typeHash a := by
  rw [typeHash, typeHash, h.typeText?_eq named]

mutual

theorem encodeValue_eq (h : SameOn s t names) (kind : String) (v : Value) (named : names kind) :
    s.encodeValue kind v = t.encodeValue kind v := by
  rw [encodeValue, encodeValue, ← h.has_eq named, encodeStruct_eq h kind v named]
termination_by (sizeOf v, 1, 0)

theorem encodeStruct_eq (h : SameOn s t names) (struct : String) (v : Value)
    (named : names struct) : s.encodeStruct struct v = t.encodeStruct struct v := by
  rw [encodeStruct, encodeStruct, ← h.defined struct named]
  cases known : s.members? struct with
  | none => rfl
  | some ms =>
    cases v with
    | null | bool b | number n | text t | list items => rfl
    | record object =>
      have members := encodeMembers_eq h struct object ms fun m declared =>
        h.closed struct m.kind named ⟨m, ⟨ms, known, declared⟩, .inl rfl⟩
      simp only [h.typeHash_eq named, members]
termination_by (sizeOf v, 0, 0)

theorem encodeMembers_eq (h : SameOn s t names) (struct : String)
    (object : List (String × Value)) : ∀ ms : List Member, (∀ m ∈ ms, names m.kind) →
      s.encodeMembers struct object ms = t.encodeMembers struct object ms
  | [], _ => by rw [encodeMembers, encodeMembers]
  | m :: rest, named => by
    have others := encodeMembers_eq h struct object rest fun m' later =>
      named m' (List.mem_cons_of_mem m later)
    cases found : object.lookup m.name with
    | none => rw [encodeMembers_of_missing found, encodeMembers_of_missing found]
    | some v =>
      rw [encodeMembers_of_found found, encodeMembers_of_found found,
        encodeValue_eq h m.kind v (named m List.mem_cons_self), others]
termination_by ms => (sizeOf object, 2, ms.length)
decreasing_by
  · exact Prod.Lex.right _ (Prod.Lex.right _ (Nat.lt_succ_self _))
  · exact Prod.Lex.left _ _ (sizeOf_lookup_lt (by assumption))

end

theorem hashStruct_eq (h : SameOn s t names) (named : names a) (v : Value) :
    s.hashStruct a v = t.hashStruct a v := by
  rw [hashStruct, hashStruct, h.encodeStruct_eq a v named]

end SameOn

def insert (s : Schema) (name : String) (ms : List Member) : Schema :=
  ⟨Json.insertMember name ms s.structs, s.sorted.insertMember⟩

theorem sameOn_insert {s : Schema} {struct name : String} (ms : List Member)
    (other : name ≠ struct)
    (unmentioned : ∀ a, Relation.ReflTransGen s.Mentions struct a → ¬ s.Mentions a name) :
    SameOn s (s.insert name ms) (Relation.ReflTransGen s.Mentions struct) where
  defined n path := by
    have differs : n ≠ name := by
      rintro rfl
      obtain same | ⟨a, before, last⟩ := path.cases_tail
      · exact other same
      · exact unmentioned a before last
    rw [members?, members?, insert, Json.lookup_insertMember, if_neg (by simpa using differs)]
  closed a b path mention := path.tail mention

/-- The second value is the first one without a member of the name, at any depth where the schema
declares one. -/
inductive Drops (s : Schema) (name : String) : String → Value → Value → Prop
  | here {struct : String} {m : Member} (object : List (String × Value))
      (declared : s.Declares struct m) (named : m.name = name) :
      Drops s name struct (.record object) (.record (object.filter (·.1 != name)))
  | inside {struct : String} {m : Member} {object : List (String × Value)} {v w : Value}
      (declared : s.Declares struct m) (found : object.lookup m.name = some v)
      (inner : Drops s name m.kind v w) :
      Drops s name struct (.record object) (.record (Json.insertMember m.name w object))

def Misses (name : String) (e : Error) : Prop :=
  ∃ struct, e = .missingMember struct name

section Missing

open Result (FailsOnly failsOnly_ok failsOnly_error)

variable {s : Schema} {kind struct name : String} {v w : Value}
  {object other : List (String × Value)}

theorem lookup_filter_ne (name key : String) (object : List (String × Value)) :
    (object.filter (·.1 != name)).lookup key = if key == name then none else object.lookup key := by
  induction object with
  | nil => simp
  | cons m rest ih =>
    obtain ⟨n, u⟩ := m
    rw [List.filter_cons, List.lookup_cons]
    by_cases dropped : n = name
    · rw [if_neg (by simpa using dropped), ih]
      by_cases same : key = name
      · simp [same]
      · have differs : (key == n) = false := beq_eq_false_iff_ne.2 (dropped ▸ same)
        rw [differs]
    · rw [if_pos (by simpa using dropped), List.lookup_cons, ih]
      by_cases same : key = n
      · simp [same, dropped]
      · have differs : (key == n) = false := beq_eq_false_iff_ne.2 same
        rw [differs]

theorem encodeValue_of_encodeStruct {bytes : Bytes}
    (ok : s.encodeStruct struct (.record object) = .ok bytes) (m : Member)
    (declared : s.Declares struct m) :
    ∃ v x, object.lookup m.name = some v ∧ s.encodeValue m.kind v = .ok x := by
  obtain ⟨ms, known, member⟩ := declared
  rw [encodeStruct, known] at ok
  obtain ⟨front, _, ok⟩ := Result.bind_eq_ok.1 ok
  obtain ⟨words, ok, _⟩ := Result.bind_eq_ok.1 ok
  exact encodeValue_of_encodeMembers ok m member

theorem encodeStruct_of_encodeValue {x : Word} (known : s.has kind)
    (ok : s.encodeValue kind v = .ok x) : ∃ bytes, s.encodeStruct kind v = .ok bytes := by
  rw [encodeValue] at ok
  split at ok
  · contradiction
  · obtain ⟨bytes, inner, _⟩ := Result.bind_eq_ok.1 ok
    exact ⟨bytes, inner⟩

theorem Drops.has (h : s.Drops name kind v w) : s.has kind := by
  cases h with
  | here _ declared _ | inside declared _ _ =>
    obtain ⟨ms, known, _⟩ := declared
    rw [Schema.has, known]
    rfl

theorem Drops.encodeStruct_ne (h : s.Drops name struct v w) (bytes : Bytes) :
    s.encodeStruct struct w ≠ .ok bytes := by
  induction h generalizing bytes with
  | here object declared named =>
    intro ok
    obtain ⟨v, _, found, _⟩ := encodeValue_of_encodeStruct ok _ declared
    rw [lookup_filter_ne, named, beq_self_eq_true, if_pos rfl] at found
    contradiction
  | inside declared _ inner ih =>
    intro ok
    obtain ⟨w', x, found, encoded⟩ := encodeValue_of_encodeStruct ok _ declared
    rw [Json.lookup_insertMember, beq_self_eq_true, if_pos rfl, Option.some.injEq] at found
    obtain ⟨bytes', ok'⟩ := encodeStruct_of_encodeValue inner.has (found ▸ encoded)
    exact ih bytes' ok'

theorem failsOnly_encodeMembers {ms : List Member}
    (h : ∀ m ∈ ms, (other.lookup m.name = none → m.name = name) ∧
      ∀ w, other.lookup m.name = some w → FailsOnly (Misses name) (s.encodeValue m.kind w)) :
    FailsOnly (Misses name) (s.encodeMembers struct other ms) := by
  induction ms with
  | nil =>
    rw [encodeMembers]
    exact failsOnly_ok []
  | cons m rest ih =>
    obtain ⟨missing, present⟩ := h m List.mem_cons_self
    have others := ih fun m' later => h m' (List.mem_cons_of_mem m later)
    cases found : other.lookup m.name with
    | none =>
      rw [encodeMembers_of_missing found, missing found]
      exact failsOnly_error ⟨struct, rfl⟩
    | some w =>
      rw [encodeMembers_of_found found]
      exact (present w found).bind fun _ => others.bind fun _ => failsOnly_ok _

/-- If each member that was encoded is now missing under the name, or has at most something missing
inside it, then the struct has at most something missing. -/
theorem failsOnly_encodeStruct {bytes : Bytes}
    (h : ∀ (m : Member) v x, object.lookup m.name = some v → s.encodeValue m.kind v = .ok x →
      (other.lookup m.name = none → m.name = name) ∧
      ∀ w, other.lookup m.name = some w → FailsOnly (Misses name) (s.encodeValue m.kind w))
    (ok : s.encodeStruct kind (.record object) = .ok bytes) :
    FailsOnly (Misses name) (s.encodeStruct kind (.record other)) := by
  have encoded := encodeValue_of_encodeStruct ok
  rw [encodeStruct] at ok ⊢
  cases known : s.members? kind with
  | none =>
    rw [known] at ok
    contradiction
  | some ms =>
    rw [known] at ok
    obtain ⟨front, spelled, _⟩ := Result.bind_eq_ok.1 ok
    have members : FailsOnly (Misses name) (s.encodeMembers kind other ms) := by
      refine failsOnly_encodeMembers fun m member => ?_
      obtain ⟨v, x, found, ok⟩ := encoded m ⟨ms, known, member⟩
      exact h m v x found ok
    simp only [spelled]
    exact members.bind fun _ => failsOnly_ok _

theorem failsOnly_encodeValue {x : Word}
    (structs : ∀ bytes, s.encodeStruct kind (.record object) = .ok bytes →
      FailsOnly (Misses name) (s.encodeStruct kind (.record other)))
    (ok : s.encodeValue kind (.record object) = .ok x) :
    FailsOnly (Misses name) (s.encodeValue kind (.record other)) := by
  by_cases known : s.has kind
  · obtain ⟨bytes, inner⟩ := encodeStruct_of_encodeValue known ok
    rw [encodeValue] at ok ⊢
    split at ok
    · contradiction
    · next notList =>
      rw [if_neg notList, if_pos known]
      exact (structs bytes inner).bind fun _ => failsOnly_ok _
  · rw [encodeValue, if_neg known] at ok ⊢
    simp only [Kind.encode_record _ kind other object]
    rw [ok]
    exact failsOnly_ok x

theorem Drops.failsOnly (h : s.Drops name struct v w) (kind : String) :
    (∀ bytes, s.encodeStruct kind v = .ok bytes →
        FailsOnly (Misses name) (s.encodeStruct kind w)) ∧
      ∀ x, s.encodeValue kind v = .ok x → FailsOnly (Misses name) (s.encodeValue kind w) := by
  induction h generalizing kind with
  | here object _ _ =>
    have structs : ∀ bytes, s.encodeStruct kind (.record object) = .ok bytes →
        FailsOnly (Misses name) (s.encodeStruct kind (.record (object.filter (·.1 != name)))) := by
      refine fun bytes => failsOnly_encodeStruct fun m v x found ok => ?_
      rw [lookup_filter_ne]
      by_cases same : m.name = name
      · simp [same]
      · rw [if_neg (by simpa using same), found]
        refine ⟨nofun, fun w kept => ?_⟩
        rw [← Option.some.inj kept, ok]
        exact failsOnly_ok x
    exact ⟨structs, fun x => failsOnly_encodeValue structs⟩
  | @inside struct m object v w _ found _ ih =>
    have structs : ∀ bytes, s.encodeStruct kind (.record object) = .ok bytes →
        FailsOnly (Misses name)
          (s.encodeStruct kind (.record (Json.insertMember m.name w object))) := by
      refine fun bytes => failsOnly_encodeStruct fun m' u x found' ok => ?_
      rw [Json.lookup_insertMember]
      -- the other members are as they were
      by_cases same : m'.name = m.name
      · rw [same, found, Option.some.injEq] at found'
        subst found'
        rw [same, beq_self_eq_true, if_pos rfl]
        refine ⟨nofun, fun w' kept => ?_⟩
        exact Option.some.inj kept ▸ (ih m'.kind).2 x ok
      · rw [if_neg (by simpa using same), found']
        refine ⟨nofun, fun w' kept => ?_⟩
        rw [← Option.some.inj kept, ok]
        exact failsOnly_ok x
    exact ⟨structs, fun x => failsOnly_encodeValue structs⟩

theorem Drops.hashStruct_error {x : Word} (h : s.Drops name struct v w)
    (ok : s.hashStruct struct v = .ok x) :
    ∃ inner, s.hashStruct struct w = .error (.missingMember inner name) := by
  obtain ⟨bytes, ok, _⟩ := Result.bind_eq_ok.1 ok
  cases result : s.encodeStruct struct w with
  | ok bytes' => exact absurd result (h.encodeStruct_ne bytes')
  | error e =>
    obtain ⟨inner, rfl⟩ := (h.failsOnly struct).1 bytes ok e result
    refine ⟨inner, ?_⟩
    rw [hashStruct, result]
    rfl

end Missing

/-- The digest of a struct depends on what the schema declares and on nothing else. Members that are
not declared can be added or changed at any depth of the message, and definitions that no struct on
the way mentions can be added to the schema: neither the result nor the error is another one. Yet
without a declared member, at whichever depth, a message that had a digest has an error that names
that member. -/
theorem hashStruct_declared_only (s : Schema) (struct : String) :
    (∀ v w, s.Agree struct v w → s.hashStruct struct v = s.hashStruct struct w) ∧
    (∀ name ms, name ≠ struct →
      (∀ a, Relation.ReflTransGen s.Mentions struct a → ¬ s.Mentions a name) →
      (s.insert name ms).typeText? struct = s.typeText? struct ∧
        ∀ v, (s.insert name ms).hashStruct struct v = s.hashStruct struct v ∧
          ∀ d, signingHash d (s.insert name ms) struct v = signingHash d s struct v) ∧
    ∀ name v w x, s.Drops name struct v w → s.hashStruct struct v = .ok x →
      ∃ inner, s.hashStruct struct w = .error (.missingMember inner name) := by
  refine ⟨fun v w => Agree.hashStruct_eq, fun name ms other unmentioned => ?_,
    fun name v w x => Drops.hashStruct_error⟩
  have same := sameOn_insert ms other unmentioned
  refine ⟨(same.typeText?_eq .refl).symm, fun v => ?_⟩
  have hash := (same.hashStruct_eq .refl v).symm
  refine ⟨hash, fun d => ?_⟩
  rw [signingHash, signingHash, hash]

theorem not_mentions {s : Schema} {name : String}
    (h : ∀ d ∈ s.structs, ∀ m ∈ d.2, name ≠ m.kind ∧ name ≠ m.base) (a : String) :
    ¬ s.Mentions a name := by
  rintro ⟨m, ⟨ms, known, member⟩, mention⟩
  have defined : (a, ms) ∈ s.structs := (Json.lookup_eq_some_iff s.sorted.distinct).1 known
  obtain ⟨notKind, notBase⟩ := h (a, ms) defined m member
  exact mention.elim notKind notBase

theorem hashStruct_declared_only_ballot :
    let seven := Value.number (.int 7)
    let noted := Value.record [("vote", .record [("choice", seven), ("note", .text "by mail")])]
    let blank := Value.record [("vote", .record [])]
    ∃ x inner, ballots.hashStruct "Ballot" (ballot seven) = .ok x ∧
      ballots.hashStruct "Ballot" noted = .ok x ∧
      (ballots.insert "EIP712Domain" [⟨"name", "string"⟩]).hashStruct "Ballot" (ballot seven) =
        .ok x ∧
      ballots.hashStruct "Ballot" blank = .error (.missingMember inner "choice") := by
  intro seven noted blank
  obtain ⟨undeclared, undefined, missing⟩ := hashStruct_declared_only ballots "Ballot"
  have vote : ballots.Declares "Ballot" ⟨"vote", "Vote"⟩ := ⟨_, rfl, List.mem_cons_self⟩
  have choice : ballots.Declares "Vote" ⟨"choice", "uint8"⟩ := ⟨_, rfl, List.mem_cons_self⟩
  have onlyVote (m : Member) (h : ballots.Declares "Ballot" m) : m = ⟨"vote", "Vote"⟩ := by
    obtain ⟨ms, known, member⟩ := h
    obtain rfl : [⟨"vote", "Vote"⟩] = ms := Option.some.inj known
    exact List.mem_singleton.1 member
  have onlyChoice (m : Member) (h : ballots.Declares "Vote" m) : m = ⟨"choice", "uint8"⟩ := by
    obtain ⟨ms, known, member⟩ := h
    obtain rfl : [⟨"choice", "uint8"⟩] = ms := Option.some.inj known
    exact List.mem_singleton.1 member
  have note : ballots.Agree "Vote" (.record [("choice", seven)])
      (.record (Json.insertMember "note" (.text "by mail") [("choice", seven)])) :=
    .insert fun m declared => by rw [onlyChoice m declared]; decide
  have found : List.lookup "vote" [("vote", Value.record [("choice", seven)])] =
      some (.record [("choice", seven)]) := rfl
  have agree : ballots.Agree "Ballot" (ballot seven) noted :=
    .inside found fun m declared _ => by rw [onlyVote m declared]; exact note
  have drops : ballots.Drops "choice" "Ballot" (ballot seven) blank :=
    .inside vote rfl (.here _ choice rfl)
  obtain ⟨outer, inner, told⟩ := structMeaning?_ballot
  have image := ballots.toOption_encodeStruct "Ballot" (ballot seven)
  rw [told seven (.integer 7) rfl, Option.map_some] at image
  obtain ⟨x, ok⟩ : ∃ x, ballots.hashStruct "Ballot" (ballot seven) = .ok x := by
    rw [hashStruct, Result.eq_ok_of_toOption image]
    exact ⟨_, rfl⟩
  obtain ⟨struct, failed⟩ := missing "choice" _ _ _ drops ok
  obtain ⟨_, added⟩ := undefined "EIP712Domain" [⟨"name", "string"⟩] (by decide)
    fun a _ => not_mentions (by decide) a
  exact ⟨x, struct, ok, (undeclared _ _ agree).symm.trans ok, (added _).1.trans ok, failed⟩

end Schema

end VenueSigner.TypedData
