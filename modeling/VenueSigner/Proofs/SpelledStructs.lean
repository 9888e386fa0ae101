import Mathlib.Data.List.TakeWhile
import VenueSigner.Proofs.KindNames
import VenueSigner.Proofs.SchemaTrace
/-!
The definitions that a digest is made with, and those in the type string of the struct. A member is
encoded by the whole name of its kind, but for the type string what is behind a bracket is left out
of that name. So the two agree just when no struct inside has a bracket in its name; the type string
then tells the digest of each message.
-/

namespace VenueSigner.TypedData

open Json (Value)

theorem Member.notMem_base (m : Member) : '[' ∉ m.base.toList := by
  rw [base, String.toList_ofList]
  intro member
  exact absurd (List.mem_takeWhile_imp member) (by decide)

theorem Member.base_eq_kind {m : Member} (h : '[' ∉ m.kind.toList) : m.base = m.kind := by
  have all : m.kind.toList.takeWhile (· != '[') = m.kind.toList := by
    refine List.takeWhile_eq_self_iff.2 fun c member => bne_iff_ne.2 ?_
    rintro rfl
    exact h member
  rw [base, all, String.ofList_toList]

theorem Kind.notMem_of_ofName? {name : String} {k : Kind} (h : Kind.ofName? name = some k) :
    '[' ∉ name.toList := by
  obtain ⟨plain, pads⟩ := exists_pads_of_ofName? h
  intro member
  exact absurd (pads.letter_plus_or_digit member) (by decide)

namespace Schema

variable {s t : Schema} {struct n : String} {v : Value}

theorem notMem_of_spells (known : s.has struct) (spells : s.Spells struct n) (other : n ≠ struct) :
    '[' ∉ n.toList := by
  obtain same | ⟨b, _, ms, _, member, _⟩ := ((spells_iff known).1 spells).cases_tail
  · exact absurd same other
  · obtain ⟨m, _, rfl⟩ := List.mem_map.1 member
    exact m.notMem_base

theorem Contains.uses {a b : String} (h : s.Contains a b) (plain : '[' ∉ b.toList) :
    s.Uses a b := by
  obtain ⟨ms, known, member, has⟩ := h
  obtain ⟨m, declared, rfl⟩ := List.mem_map.1 member
  exact ⟨ms, known, List.mem_map.2 ⟨m, declared, Member.base_eq_kind plain⟩, has⟩

theorem has_of_contains (known : s.has struct) (path : Relation.ReflTransGen s.Contains struct n) :
    s.has n := by
  obtain rfl | ⟨_, _, _, _, _, has⟩ := path.cases_tail
  · exact known
  · exact has

theorem reads_of_contains (known : s.has struct)
    (path : Relation.ReflTransGen s.Contains struct n) : s.Reads struct n :=
  ⟨n, path, (spells_iff (has_of_contains known path)).2 .refl⟩

/-- A definition that is read is in the type string of the struct itself, or of a struct with a
bracket in its name. -/
theorem Reads.exists_spells (known : s.has struct) (reads : s.Reads struct n) :
    ∃ b, s.Reads struct b ∧ (b = struct ∨ '[' ∈ b.toList) ∧ s.Spells b n := by
  obtain ⟨b, path, spells⟩ := reads
  -- of the structs on the way, it is the last one with a bracket
  have marked : ∃ c, Relation.ReflTransGen s.Contains struct c ∧
      (c = struct ∨ '[' ∈ c.toList) ∧ s.Reaches c b := by
    clear spells
    induction path with
    | refl => exact ⟨struct, .refl, .inl rfl, .refl⟩
    | @tail b d before last ih =>
      by_cases bracket : '[' ∈ d.toList
      · exact ⟨d, before.tail last, .inr bracket, .refl⟩
      · obtain ⟨c, path', marked, way⟩ := ih
        exact ⟨c, path', marked, way.tail (last.uses bracket)⟩
  obtain ⟨c, path', marked, way⟩ := marked
  have known' := has_of_contains known path'
  have rest := (spells_iff (has_of_contains known path)).1 spells
  exact ⟨c, reads_of_contains known path', marked, (spells_iff known').2 (way.trans rest)⟩

theorem spells_all_iff (known : s.has struct) : (∀ n, s.Reads struct n → s.Spells struct n) ↔
    ∀ n, s.Reads struct n → n ≠ struct → '[' ∉ n.toList := by
  constructor
  · intro all n reads other
    exact notMem_of_spells known (all n reads) other
  · intro plain n reads
    obtain ⟨b, readsB, marked, spells⟩ := reads.exists_spells known
    obtain rfl | bracket := marked
    · exact spells
    · by_cases same : b = struct
      · exact same ▸ spells
      · exact absurd bracket (plain b readsB same)

section Telling

variable {a b : String}

theorem has_of_encodeStruct {bytes : Bytes} (ok : s.encodeStruct a v = .ok bytes) : s.has a := by
  cases defined : s.members? a with
  | none =>
    rw [encodeStruct, defined] at ok
    contradiction
  | some ms => rw [has, defined]; rfl

theorem exists_encodeStruct {bytes : Bytes} (ok : s.encodeStruct a v = .ok bytes)
    (path : Relation.ReflTransGen s.Contains a b) :
    ∃ u bytes, s.encodeStruct b u = .ok bytes := by
  induction path with
  | refl => exact ⟨v, bytes, ok⟩
  | tail _ last ih =>
    obtain ⟨u, bytes, ok⟩ := ih
    obtain ⟨u', bytes', _, ok'⟩ := last.encodeStruct_lt ok
    exact ⟨u', bytes', ok'⟩

theorem exists_encodeValue {bytes : Bytes} {m : Member} (ok : s.encodeStruct a v = .ok bytes)
    (declared : s.Declares a m) : ∃ u x, s.encodeValue m.kind u = .ok x := by
  cases v with
  | record object =>
    obtain ⟨u, x, _, encoded⟩ := encodeValue_of_encodeStruct ok m declared
    exact ⟨u, x, encoded⟩
  | null | bool b | number n | text t | list items =>
    obtain ⟨ms, known, _⟩ := declared
    rw [encodeStruct, known] at ok
    contradiction

theorem notMem_kind {bytes : Bytes} {m : Member} (ok : s.encodeStruct a v = .ok bytes)
    (plain : ∀ n, s.Reads a n → n ≠ a → '[' ∉ n.toList)
    (path : Relation.ReflTransGen s.Contains a b) (declared : s.Declares b m) :
    '[' ∉ m.kind.toList := by
  obtain ⟨_, _, ok'⟩ := exists_encodeStruct ok path
  obtain ⟨u, x, encoded⟩ := exists_encodeValue ok' declared
  rw [encodeValue] at encoded
  split at encoded
  · contradiction
  · split at encoded
    · next struct =>
      obtain ⟨ms, defined, member⟩ := declared
      have last : s.Contains b m.kind := ⟨ms, defined, List.mem_map_of_mem member, struct⟩
      have reads := reads_of_contains (has_of_encodeStruct ok) (path.tail last)
      refine plain m.kind reads fun same => ?_
      have cycle : Relation.TransGen s.Contains a a := .tail' path (same ▸ last)
      exact Endless.encodeStruct_ne ⟨a, .refl, cycle⟩ v bytes ok
    · split at encoded
      · next named => exact Kind.notMem_of_ofName? named
      · contradiction

theorem contains_of_reaches {bytes : Bytes} (ok : s.encodeStruct a v = .ok bytes)
    (plain : ∀ n, s.Reads a n → n ≠ a → '[' ∉ n.toList)
    (path : s.Reaches a b) : Relation.ReflTransGen s.Contains a b := by
  induction path with
  | refl => exact .refl
  | tail _ last ih =>
    obtain ⟨ms, defined, member, struct⟩ := last
    obtain ⟨m, declared, rfl⟩ := List.mem_map.1 member
    have whole := Member.base_eq_kind (notMem_kind ok plain ih ⟨ms, defined, declared⟩)
    rw [whole] at struct ⊢
    exact ih.tail ⟨ms, defined, List.mem_map_of_mem declared, struct⟩

theorem spelled_eq_of_typeText?_eq (hs : s.Plain) (ht : t.Plain) (known : s.has a)
    (same : t.typeText? a = s.typeText? a) : t.spelled a = s.spelled a := by
  have text := typeText?_eq_spelled known
  obtain ⟨ms, defined, chars⟩ := typeText?_eq_some text
  obtain ⟨ns, defined', chars'⟩ := typeText?_eq_some (same.trans text)
  rw [spelled, spelled, defined, defined']
  exact eq_of_definitionsChars_eq (ht.spelled defined') (hs.spelled defined)
    (chars'.symm.trans chars)

/-- The structs of a type string, with all names under which neither schema has one. -/
def SpelledOrUnknown (s t : Schema) (a n : String) : Prop :=
  s.Spells a n ∨ (s.members? n = none ∧ t.members? n = none)

/-- Two schemas that spell a struct in one way define the same under all that it mentions. -/
theorem sameOn_of_spelled_eq {bytes : Bytes} (same : t.spelled a = s.spelled a)
    (ok : s.encodeStruct a v = .ok bytes) (known' : t.has a)
    (plain : ∀ n, s.Reads a n → n ≠ a → '[' ∉ n.toList) :
    SameOn s t (SpelledOrUnknown s t a) := by
  have known := has_of_encodeStruct ok
  have defined (n : String) (named : SpelledOrUnknown s t a n) : s.members? n = t.members? n := by
    obtain spells | ⟨absent, absent'⟩ := named
    · obtain ⟨d, member, rfl⟩ := List.mem_map.1 spells
      have member' : d ∈ t.spelled a := same ▸ member
      rw [members?_of_mem_spelled member, members?_of_mem_spelled member']
    · rw [absent, absent']
  refine ⟨defined, fun b n named mentions => ?_⟩
  obtain ⟨m, ⟨ms, found, member⟩, mention⟩ := mentions
  obtain spells | ⟨absent, _⟩ := id named
  · have path := (spells_iff known).1 spells
    have kind := notMem_kind ok plain (contains_of_reaches ok plain path) ⟨ms, found, member⟩
    have whole := Member.base_eq_kind kind
    obtain rfl : n = m.base := mention.elim (·.trans whole.symm) id
    by_cases struct : s.has m.base
    · have used : s.Uses b m.base := ⟨ms, found, List.mem_map_of_mem member, struct⟩
      exact .inl ((spells_iff known).2 (path.tail used))
    · by_cases struct' : t.has m.base
      -- the second schema spells the struct then, and both spell the same
      · have found' : t.members? b = some ms := (defined b named).symm.trans found
        have used : t.Uses b m.base := ⟨ms, found', List.mem_map_of_mem member, struct'⟩
        have spells' : t.Spells a b := by rwa [Spells, same]
        have path' := ((spells_iff known').1 spells').tail used
        have spelled : t.Spells a m.base := (spells_iff known').2 path'
        rw [Spells, same] at spelled
        exact .inl spelled
      · exact .inr ⟨by simpa [has] using struct, by simpa [has] using struct'⟩
  · rw [absent] at found
    contradiction

end Telling

/-- A digest is made with definitions that are all in type strings: that of the struct itself, or
that of a struct inside with a bracket in its name. Without such structs, and only then, the first
type string has all definitions that are read, and it tells the digest of each message under every
plain schema. -/
theorem hashStruct_spells {x : Word} (ok : s.hashStruct struct v = .ok x) :
    ∃ read, s.traceHash struct v = .ok (x, read) ∧
      s.typeText? struct =
        some (String.join ((s.spelled struct).map fun d => definitionText d.1 d.2)) ∧
      (∀ n ∈ read, ∃ b ∈ read, (b = struct ∨ '[' ∈ b.toList) ∧ s.Spells b n) ∧
      ((∀ n ∈ read, s.Spells struct n) ↔ ∀ n ∈ read, n ≠ struct → '[' ∉ n.toList) ∧
      ((∀ n ∈ read, s.Spells struct n) → ∀ t : Schema, s.Plain → t.Plain →
        t.typeText? struct = s.typeText? struct →
          ∀ w, t.hashStruct struct w = s.hashStruct struct w) := by
  obtain ⟨bytes, encoded, _⟩ := Result.bind_eq_ok.1 ok
  have known := has_of_encodeStruct encoded
  obtain ⟨read, traced, reads⟩ := exists_traceHash ok
  refine ⟨read, traced, typeText?_eq_spelled known, fun n member => ?_, ?_, ?_⟩
  · obtain ⟨b, readsB, rest⟩ := ((reads n).1 member).exists_spells known
    exact ⟨b, (reads b).2 readsB, rest⟩
  · simp only [reads]
    exact spells_all_iff known
  · intro all t hs ht same w
    simp only [reads] at all
    have same' := spelled_eq_of_typeText?_eq hs ht known same
    have known' : t.has struct := by
      rw [typeText?_eq_spelled known] at same
      obtain ⟨ms, defined, _⟩ := typeText?_eq_some same
      rw [has, defined]
      rfl
    have plain := (spells_all_iff known).1 all
    have sameOn := sameOn_of_spelled_eq same' encoded known' plain
    exact (sameOn.hashStruct_eq (.inl ((spells_iff known).2 .refl)) w).symm

theorem hashStruct_spells_ballot :
    let seven := Value.number (.int 7)
    ∃ x read, ballots.hashStruct "Ballot" (ballot seven) = .ok x ∧
      ballots.traceHash "Ballot" (ballot seven) = .ok (x, read) ∧ "Vote" ∈ read ∧
      ballots.Spells "Ballot" "Vote" ∧
      (ballots.insert "EIP712Domain" [⟨"name", "string"⟩]).hashStruct "Ballot" (ballot seven) =
        .ok x := by
  intro seven
  obtain ⟨outer, inner, told⟩ := structMeaning?_ballot
  have image := ballots.toOption_encodeStruct "Ballot" (ballot seven)
  rw [told seven (.integer 7) rfl, Option.map_some] at image
  obtain ⟨x, ok⟩ : ∃ x, ballots.hashStruct "Ballot" (ballot seven) = .ok x := by
    rw [hashStruct, Result.eq_ok_of_toOption image]
    exact ⟨_, rfl⟩
  obtain ⟨read, traced, _, spelled, all, tells⟩ := hashStruct_spells ok
  have whole : ∀ n ∈ read, ballots.Spells "Ballot" n := by
    refine all.2 fun n member _ => ?_
    obtain ⟨_, _, _, spells⟩ := spelled n member
    obtain ⟨d, known, rfl⟩ := List.mem_map.1 spells
    have found := members?_of_mem_spelled known
    have defined := (Json.lookup_eq_some_iff ballots.sorted.distinct).1 found
    exact (by decide : ∀ d ∈ ballots.structs, '[' ∉ d.1.toList) d defined
  have vote : "Vote" ∈ read := by
    obtain ⟨read', traced', reads⟩ := exists_traceHash ok
    obtain rfl : read = read' := (Prod.ext_iff.1 (Except.ok.inj (traced.symm.trans traced'))).2
    have contains : ballots.Contains "Ballot" "Vote" := ⟨_, rfl, List.mem_singleton.2 rfl, rfl⟩
    exact (reads "Vote").2 (reads_of_contains rfl (.single contains))
  have plain : ballots.Plain := by unfold Plain; decide
  have plain' : (ballots.insert "EIP712Domain" [⟨"name", "string"⟩]).Plain := by
    unfold Plain; decide
  have same : SameOn ballots (ballots.insert "EIP712Domain" [⟨"name", "string"⟩])
      (Relation.ReflTransGen ballots.Mentions "Ballot") :=
    sameOn_insert _ (by decide) fun a _ => not_mentions (by decide) a
  have told := tells whole _ plain plain' (same.typeText?_eq .refl).symm (ballot seven)
  exact ⟨x, read, ok, traced, vote, whole "Vote" vote, told.trans ok⟩

def bracketed (leaf : Member) : Schema where
  structs := [("Leaf[x", [leaf]), ("Root", [⟨"leaf", "Leaf[x"⟩])]
  sorted := List.pairwise_pair.2 (by decide : "Leaf[x" < "Root")

theorem needs_eq_nil (known : s.has struct) (h : ∀ b, ¬ s.Uses struct b) : s.needs struct = [] := by
  refine List.eq_nil_iff_forall_not_mem.2 fun d needed => ?_
  obtain ⟨other, path, _⟩ := (mem_needs_iff known).1 needed
  obtain same | ⟨b, first, _⟩ := path.cases_head
  · exact other same.symm
  · exact h b first

theorem not_uses_bracketed (leaf : Member) (b : String) : ¬ (bracketed leaf).Uses "Root" b := by
  rintro ⟨ms, known, member, has⟩
  obtain rfl : [⟨"leaf", "Leaf[x"⟩] = ms := Option.some.inj known
  obtain rfl : b = "Leaf" := by simpa [Member.base] using member
  contradiction

theorem typeText?_bracketed (leaf : Member) :
    (bracketed leaf).typeText? "Root" = some "Root(Leaf[x leaf)" := by
  rw [typeText?, needs_eq_nil rfl (not_uses_bracketed leaf)]
  rfl

theorem encodeStruct_of_member {m : Member} (known : s.members? struct = some [m]) (v : Value) :
    ∃ front : Bytes, s.encodeStruct struct (.record [(m.name, v)]) =
      s.encodeValue m.kind v >>= fun word => .ok (front ++ word.bytes) := by
  refine ⟨(Keccak.digestText (s.collectedText struct [m] (s.reach [struct] []))).bytes, ?_⟩
  have found : List.lookup m.name [(m.name, v)] = some v := by simp
  rw [encodeStruct, known]
  simp only [typeHash_eq known, encodeMembers_of_found found, encodeMembers]
  cases s.encodeValue m.kind v with
  | error e => rfl
  | ok word => exact congrArg (fun rest => Except.ok (_ ++ rest)) (List.append_nil word.bytes)

theorem encodeStruct_bracketed (leaf : Member) (v : Value) :
    ∃ front : Bytes, (bracketed leaf).encodeStruct "Root" (.record [("leaf", v)]) =
      (bracketed leaf).encodeStruct "Leaf[x" v >>= fun b =>
        .ok (front ++ (Keccak.digest b).bytes) := by
  obtain ⟨front, encoded⟩ :=
    encodeStruct_of_member (rfl : (bracketed leaf).members? "Root" = some [⟨"leaf", "Leaf[x"⟩]) v
  refine ⟨front, encoded.trans ?_⟩
  have struct : (bracketed leaf).has "Leaf[x" := rfl
  rw [encodeValue, if_neg (by decide), if_pos struct]
  cases (bracketed leaf).encodeStruct "Leaf[x" v with
  | error e => rfl
  | ok b => rfl

/-- The leaf is read for the digest and is not spelled, so that the type string is that of another
schema, under which the message has no digest. -/
theorem not_spells_leaf :
    let s := bracketed ⟨"n", "uint8"⟩
    let t := bracketed ⟨"k", "uint8"⟩
    let message := Value.record [("leaf", .record [("n", .number (.int 1))])]
    ∃ x read, s.hashStruct "Root" message = .ok x ∧ s.traceHash "Root" message = .ok (x, read) ∧
      "Leaf[x" ∈ read ∧ ¬ s.Spells "Root" "Leaf[x" ∧ t.typeText? "Root" = s.typeText? "Root" ∧
      t.hashStruct "Root" message = .error (.missingMember "Leaf[x" "k") := by
  intro s t message
  obtain ⟨x, ok⟩ : ∃ x, s.hashStruct "Root" message = .ok x := by
    obtain ⟨_, root⟩ := encodeStruct_bracketed ⟨"n", "uint8"⟩ (.record [("n", .number (.int 1))])
    obtain ⟨_, leaf⟩ := encodeStruct_of_member
      (rfl : s.members? "Leaf[x" = some [⟨"n", "uint8"⟩]) (.number (.int 1))
    have one : s.encodeValue "uint8" (.number (.int 1)) = .ok (FixedBytes.ofNat 32 1) := by
      rw [encodeValue, if_neg (by decide), if_neg (by decide)]
      rfl
    rw [hashStruct, root, leaf, one]
    exact ⟨_, rfl⟩
  have failed : t.hashStruct "Root" message = .error (.missingMember "Leaf[x" "k") := by
    obtain ⟨_, root⟩ := encodeStruct_bracketed ⟨"k", "uint8"⟩ (.record [("n", .number (.int 1))])
    have known : t.members? "Leaf[x" = some [⟨"k", "uint8"⟩] := rfl
    have missing : t.encodeMembers "Leaf[x" [("n", .number (.int 1))] [⟨"k", "uint8"⟩] =
        .error (.missingMember "Leaf[x" "k") :=
      encodeMembers_of_missing rfl
    have leaf : t.encodeStruct "Leaf[x" (.record [("n", .number (.int 1))]) =
        .error (.missingMember "Leaf[x" "k") := by
      rw [encodeStruct, known]
      simp only [typeHash_eq known, missing]
      rfl
    rw [hashStruct, root, leaf]
    rfl
  obtain ⟨read, traced, reads⟩ := exists_traceHash ok
  have contains : s.Contains "Root" "Leaf[x" := ⟨_, rfl, List.mem_singleton.2 rfl, rfl⟩
  have same : t.typeText? "Root" = s.typeText? "Root" := by
    rw [typeText?_bracketed, typeText?_bracketed]
  refine ⟨x, read, ok, traced, (reads _).2 (reads_of_contains rfl (.single contains)), ?_, same,
    failed⟩
  intro spells
  exact notMem_of_spells rfl spells (by decide) (by decide)

end Schema

end VenueSigner.TypedData
