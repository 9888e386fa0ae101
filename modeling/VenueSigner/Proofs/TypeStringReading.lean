import VenueSigner.Proofs.Declared
/-!
Type strings are read in one way. When no name of a struct, of a member or of a kind has a
parenthesis, a comma or a space in it, the string tells the struct, all others that uses lead to,
and the members of each of them.
-/

namespace VenueSigner

namespace TypedData

/-- The text has none of the marks that type strings are put together with. -/
def Plain (text : String) : Prop :=
  ∀ mark ∈ ['(', ')', ',', ' '], mark ∉ text.toList

instance (text : String) : Decidable (Plain text) :=
  List.decidableBAll _ _

namespace Member

/-- Both texts of the member are plain. -/
structure Plain (m : Member) : Prop where
  kind : TypedData.Plain m.kind
  name : TypedData.Plain m.name

instance (m : Member) : Decidable m.Plain :=
  decidable_of_iff (TypedData.Plain m.kind ∧ TypedData.Plain m.name)
    ⟨fun h => ⟨h.1, h.2⟩, fun h => ⟨h.kind, h.name⟩⟩

theorem toList_text (m : Member) : m.text.toList = m.kind.toList ++ ' ' :: m.name.toList := by
  rw [text, String.toList_append, String.toList_append, List.append_assoc]
  rfl

theorem Plain.eq_of_text_eq {m n : Member} (hm : m.Plain) (hn : n.Plain)
    (h : m.text.toList = n.text.toList) : m = n := by
  rw [toList_text, toList_text] at h
  have space : ' ' ∈ ['(', ')', ',', ' '] := by decide
  obtain ⟨kind, name⟩ := append_cons_inj (hm.kind _ space) (hn.kind _ space) h
  cases m
  cases n
  rw [mk.injEq]
  exact ⟨String.toList_injective name, String.toList_injective kind⟩

theorem eq_of_map_text_eq {ms ns : List Member} (hm : ∀ m ∈ ms, m.Plain) (hn : ∀ n ∈ ns, n.Plain)
    (h : ms.map (·.text.toList) = ns.map (·.text.toList)) : ms = ns := by
  induction ms generalizing ns with
  | nil => exact (List.map_eq_nil_iff.1 h.symm).symm
  | cons m rest ih =>
    cases ns with
    | nil => contradiction
    | cons n others =>
      obtain ⟨first, later⟩ := List.cons.inj h
      rw [(hm m List.mem_cons_self).eq_of_text_eq (hn n List.mem_cons_self) first,
        ih (fun m' later => hm m' (List.mem_cons_of_mem m later))
          (fun n' later => hn n' (List.mem_cons_of_mem n later)) later]

theorem Plain.notMem_text {m : Member} (hm : m.Plain) {mark : Char}
    (h : mark ∈ ['(', ')', ',']) : mark ∉ m.text.toList := by
  have marks : mark ∈ ['(', ')', ',', ' '] := List.mem_append_left [' '] h
  have notSpace : mark ≠ ' ' := by
    rintro rfl
    exact absurd h (by decide)
  rw [toList_text, List.mem_append, List.mem_cons]
  rintro (inKind | rfl | inName)
  · exact hm.kind mark marks inKind
  · exact notSpace rfl
  · exact hm.name mark marks inName

end Member

namespace Schema

def membersChars (ms : List Member) : List Char :=
  [','].intercalate (ms.map (·.text.toList))

theorem membersChars_cons_cons (m n : Member) (rest : List Member) :
    membersChars (m :: n :: rest) = m.text.toList ++ ',' :: membersChars (n :: rest) := by
  rw [membersChars, List.map_cons, List.map_cons, List.intercalate_cons_cons, List.append_assoc]
  rfl

theorem notMem_membersChars {ms : List Member} (plain : ∀ m ∈ ms, m.Plain) :
    ')' ∉ membersChars ms := by
  induction ms with
  | nil => exact List.not_mem_nil
  | cons m rest ih =>
    have first : ')' ∉ m.text.toList := (plain m List.mem_cons_self).notMem_text (by decide)
    have later := ih fun n hn => plain n (List.mem_cons_of_mem m hn)
    cases rest with
    | nil =>
      rw [membersChars, List.map_singleton, List.intercalate_singleton]
      exact first
    | cons n others =>
      rw [membersChars_cons_cons, List.mem_append, List.mem_cons]
      rintro (inFirst | comma | inLater)
      · exact first inFirst
      · exact absurd comma (by decide)
      · exact later inLater

theorem membersChars_cons_ne_nil (m : Member) (rest : List Member) :
    membersChars (m :: rest) ≠ [] := by
  have text : m.text.toList ≠ [] := by
    rw [Member.toList_text]
    exact List.append_ne_nil_of_right_ne_nil _ (List.cons_ne_nil _ _)
  cases rest with
  | nil =>
    rw [membersChars, List.map_singleton, List.intercalate_singleton]
    exact text
  | cons n others =>
    rw [membersChars_cons_cons]
    exact List.append_ne_nil_of_left_ne_nil text _

theorem eq_of_membersChars_eq {ms ns : List Member} (hm : ∀ m ∈ ms, m.Plain)
    (hn : ∀ n ∈ ns, n.Plain) (h : membersChars ms = membersChars ns) : ms = ns := by
  have noComma {ms : List Member} (plain : ∀ m ∈ ms, m.Plain) :
      ∀ l ∈ ms.map (·.text.toList), ',' ∉ l := by
    intro l hl
    obtain ⟨m, member, rfl⟩ := List.mem_map.1 hl
    exact (plain m member).notMem_text (by decide)
  cases ms with
  | nil =>
    cases ns with
    | nil => rfl
    | cons n others => exact absurd h.symm (membersChars_cons_ne_nil n others)
  | cons m rest =>
    cases ns with
    | nil => exact absurd h (membersChars_cons_ne_nil m rest)
    | cons n others =>
      have split := congrArg (List.splitOn ',') h
      rw [membersChars, membersChars,
        List.splitOn_intercalate ',' (noComma hm) (List.cons_ne_nil _ _),
        List.splitOn_intercalate ',' (noComma hn) (List.cons_ne_nil _ _)] at split
      exact Member.eq_of_map_text_eq hm hn split

theorem toList_definitionText_append (d : String × List Member) (rest : List Char) :
    (definitionText d.1 d.2).toList ++ rest =
      d.1.toList ++ '(' :: (membersChars d.2 ++ ')' :: rest) := by
  have members : (",".intercalate (d.2.map Member.text)).toList = membersChars d.2 := by
    rw [String.toList_intercalate, List.map_map]
    rfl
  rw [definitionText, String.toList_append, String.toList_append, String.toList_append, members]
  simp only [List.append_assoc]
  rfl

def definitionsChars (ds : List (String × List Member)) : List Char :=
  ds.flatMap fun d => (definitionText d.1 d.2).toList

theorem definitionsChars_cons (d : String × List Member) (rest : List (String × List Member)) :
    definitionsChars (d :: rest) =
      d.1.toList ++ '(' :: (membersChars d.2 ++ ')' :: definitionsChars rest) := by
  rw [definitionsChars, List.flatMap_cons, toList_definitionText_append, definitionsChars]

theorem definitionsChars_cons_ne_nil (d : String × List Member)
    (rest : List (String × List Member)) : definitionsChars (d :: rest) ≠ [] := by
  rw [definitionsChars_cons]
  exact List.append_ne_nil_of_right_ne_nil _ (List.cons_ne_nil _ _)

/-- The name of the struct and all texts of its members are plain. -/
structure PlainDefinition (d : String × List Member) : Prop where
  name : TypedData.Plain d.1
  members : ∀ m ∈ d.2, m.Plain

instance (d : String × List Member) : Decidable (PlainDefinition d) :=
  decidable_of_iff (TypedData.Plain d.1 ∧ ∀ m ∈ d.2, m.Plain)
    ⟨fun h => ⟨h.1, h.2⟩, fun h => ⟨h.name, h.members⟩⟩

/-- Definitions are told apart: the name ends at the first parenthesis, and the members at the next
one. -/
theorem eq_of_definitionsChars_eq {ds es : List (String × List Member)}
    (hd : ∀ d ∈ ds, PlainDefinition d) (he : ∀ e ∈ es, PlainDefinition e)
    (h : definitionsChars ds = definitionsChars es) : ds = es := by
  have opening : '(' ∈ ['(', ')', ',', ' '] := by decide
  induction ds generalizing es with
  | nil =>
    cases es with
    | nil => rfl
    | cons e others => exact absurd h.symm (definitionsChars_cons_ne_nil e others)
  | cons d rest ih =>
    cases es with
    | nil => exact absurd h (definitionsChars_cons_ne_nil d rest)
    | cons e others =>
      have plain := hd d List.mem_cons_self
      have plain' := he e List.mem_cons_self
      rw [definitionsChars_cons, definitionsChars_cons] at h
      obtain ⟨name, h⟩ := append_cons_inj (plain.name _ opening) (plain'.name _ opening) h
      obtain ⟨members, later⟩ := append_cons_inj (notMem_membersChars plain.members)
        (notMem_membersChars plain'.members) h
      have first : d = e := Prod.ext (String.toList_injective name)
        (eq_of_membersChars_eq plain.members plain'.members members)
      have others := ih (fun d' next => hd d' (List.mem_cons_of_mem d next))
        (fun e' next => he e' (List.mem_cons_of_mem e next)) later
      rw [first, others]

/-- All definitions are plain. -/
def Plain (s : Schema) : Prop :=
  ∀ d ∈ s.structs, PlainDefinition d

section Reading

variable {s t : Schema} {a b n text : String} {ms : List Member}

theorem Reaches.has (path : s.Reaches a n) (known : s.has a) : s.has n := by
  obtain rfl | ⟨_, _, _, _, _, used⟩ := path.cases_tail
  · exact known
  · exact used

theorem mem_spelled_iff (known : s.members? a = some ms) {d : String × List Member} :
    d ∈ (a, ms) :: s.needs a ↔ s.Reaches a d.1 ∧ s.members? d.1 = some d.2 := by
  have struct : s.has a := by rw [Schema.has, known]; rfl
  rw [List.mem_cons, mem_needs_iff struct]
  constructor
  · rintro (rfl | ⟨_, path, defined⟩)
    · exact ⟨.refl, known⟩
    · exact ⟨path, defined⟩
  · rintro ⟨path, defined⟩
    by_cases same : d.1 = a
    · rw [same, known, Option.some.injEq] at defined
      exact .inl (Prod.ext same defined.symm)
    · exact .inr ⟨same, path, defined⟩

theorem typeText?_eq_some (h : s.typeText? a = some text) :
    ∃ ms, s.members? a = some ms ∧ text.toList = definitionsChars ((a, ms) :: s.needs a) := by
  obtain ⟨ms, known, rfl⟩ := Option.map_eq_some_iff.1 h
  refine ⟨ms, known, ?_⟩
  rw [String.toList_append, String.toList_join, List.flatMap_map]
  rfl

theorem Plain.spelled (plain : s.Plain) (known : s.members? a = some ms) :
    ∀ d ∈ (a, ms) :: s.needs a, PlainDefinition d := by
  intro d spelled
  have defined := ((mem_spelled_iff known).1 spelled).2
  exact plain d ((Json.lookup_eq_some_iff s.sorted.distinct).1 defined)

/-- Two type strings that are the same, of whichever structs and under whichever plain schemas, are
of one struct. From it uses lead to the same structs under both schemas, and each of these has the
same members, with the same kinds and names and in the same order. -/
theorem typeText?_tells (hs : s.Plain) (ht : t.Plain) (spelledA : s.typeText? a = some text)
    (spelledB : t.typeText? b = some text) :
    a = b ∧ (∀ n, s.Reaches a n ↔ t.Reaches b n) ∧
      ∀ n, s.Reaches a n → ∃ ms, s.members? n = some ms ∧ t.members? n = some ms := by
  obtain ⟨ms, known, charsA⟩ := typeText?_eq_some spelledA
  obtain ⟨ns, known', charsB⟩ := typeText?_eq_some spelledB
  have same : (a, ms) :: s.needs a = (b, ns) :: t.needs b :=
    eq_of_definitionsChars_eq (hs.spelled known) (ht.spelled known') (charsA.symm.trans charsB)
  have spelled (d : String × List Member) : s.Reaches a d.1 ∧ s.members? d.1 = some d.2 ↔
      t.Reaches b d.1 ∧ t.members? d.1 = some d.2 := by
    rw [← mem_spelled_iff known, ← mem_spelled_iff known', same]
  have defined {s : Schema} {a : String} {ms : List Member} (known : s.members? a = some ms)
      {n : String} (path : s.Reaches a n) : ∃ ms, s.members? n = some ms :=
    Option.isSome_iff_exists.1 (path.has (by rw [Schema.has, known]; rfl))
  refine ⟨(Prod.ext_iff.1 (List.cons.inj same).1).1, fun n => ⟨fun path => ?_, fun path => ?_⟩,
    fun n path => ?_⟩
  · obtain ⟨os, found⟩ := defined known path
    exact ((spelled (n, os)).1 ⟨path, found⟩).1
  · obtain ⟨os, found⟩ := defined known' path
    exact ((spelled (n, os)).2 ⟨path, found⟩).1
  · obtain ⟨os, found⟩ := defined known path
    exact ⟨os, found, ((spelled (n, os)).1 ⟨path, found⟩).2⟩

theorem typeText?_tells_ballot :
    let signed := ballots.insert "EIP712Domain" [⟨"name", "string"⟩]
    ballots.Plain ∧ signed.Plain ∧ ∃ text, ballots.typeText? "Ballot" = some text ∧
      signed.typeText? "Ballot" = some text ∧ signed.Reaches "Ballot" "Vote" ∧
      signed.members? "Vote" = some [⟨"choice", "uint8"⟩] ∧
      ¬ signed.Reaches "Ballot" "EIP712Domain" := by
  intro signed
  have plain : ballots.Plain := by unfold Plain; decide
  have plain' : signed.Plain := by unfold Plain; decide
  have same : SameOn ballots signed (Relation.ReflTransGen ballots.Mentions "Ballot") :=
    sameOn_insert _ (by decide) fun a _ => not_mentions (by decide) a
  obtain ⟨text, spelled⟩ : ∃ text, ballots.typeText? "Ballot" = some text := ⟨_, rfl⟩
  have spelled' := (same.typeText?_eq .refl).symm.trans spelled
  obtain ⟨_, reached, defined⟩ := typeText?_tells plain plain' spelled spelled'
  have vote : ballots.Reaches "Ballot" "Vote" :=
    .single ⟨_, rfl, by decide, by decide⟩
  obtain ⟨ms, known, known'⟩ := defined "Vote" vote
  obtain rfl : [⟨"choice", "uint8"⟩] = ms := Option.some.inj known
  refine ⟨plain, plain', text, spelled, spelled', (reached "Vote").1 vote, known', fun path => ?_⟩
  have absent : ¬ ballots.has "EIP712Domain" := by decide
  exact absent (((reached "EIP712Domain").2 path).has (by decide))

end Reading

end Schema

end TypedData

end VenueSigner
