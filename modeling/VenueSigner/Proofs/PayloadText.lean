import VenueSigner.Proofs.MessageCommitment
import VenueSigner.Proofs.ValueText
import VenueSigner.Proofs.WireRecords
/-!
Typed data keeps its digest through JSON. Its schema, the name of its struct and its domain are read
back as they were written. Binary numbers in its message may come back as neighbours of themselves,
but no kind takes one, so the message says the same.
-/

namespace VenueSigner

open Json (Slot Tree Value)

namespace TypedData

theorem Kind.meaning?_blur (k : Kind) (v : Value) : k.meaning? v.blur = k.meaning? v := by
  have text : text? v.blur = text? v := by cases v <;> rfl
  have bool : bool? v.blur = bool? v := by cases v <;> rfl
  have natural : natural? v.blur = natural? v := by
    cases v with
    | number n => cases n <;> rfl
    | null | bool b | text s | list items | record members => rfl
  have integer : integer? v.blur = integer? v := by
    cases v with
    | number n => cases n <;> rfl
    | null | bool b | text s | list items | record members => rfl
  cases k <;> simp only [meaning?, hexBytes?, text, bool, natural, integer]

namespace Schema

mutual

theorem meaning?_blur (s : Schema) (kind : String) (v : Value) :
    s.meaning? kind v.blur = s.meaning? kind v := by
  have struct := structMeaning?_blur s kind v
  rw [meaning?, meaning?, struct]
  simp only [Kind.meaning?_blur]
termination_by (sizeOf v, 1, 0)

theorem structMeaning?_blur (s : Schema) (struct : String) (v : Value) :
    s.structMeaning? struct v.blur = s.structMeaning? struct v := by
  rw [structMeaning?, structMeaning?]
  cases s.members? struct with
  | none => rfl
  | some ms =>
    cases v with
    | record object =>
      have members := memberMeanings?_blur s object ms
      simp only [Value.blur, members]
    | null | bool b | number n | text s | list items => rfl
termination_by (sizeOf v, 0, 0)

theorem memberMeanings?_blur (s : Schema) (object : List (String × Value)) :
    ∀ ms : List Member,
      s.memberMeanings? (Value.blurMembers object) ms = s.memberMeanings? object ms
  | [] => by rw [memberMeanings?, memberMeanings?]
  | m :: rest => by
    have blurred := Value.lookup_blurMembers m.name object
    cases found : object.lookup m.name with
    | none =>
      rw [found, Option.map_none] at blurred
      rw [memberMeanings?_of_missing found, memberMeanings?_of_missing blurred]
    | some v =>
      rw [found, Option.map_some] at blurred
      rw [memberMeanings?_of_found found, memberMeanings?_of_found blurred,
        meaning?_blur s m.kind v, memberMeanings?_blur s object rest]
termination_by ms => (sizeOf object, 2, ms.length)
decreasing_by
  · exact Prod.Lex.left _ _ (sizeOf_lookup_lt (by assumption))
  · exact Prod.Lex.right _ (Prod.Lex.right _ (Nat.lt_succ_self _))

end

end Schema

theorem signingHash_congr {d : Domain} {s : Schema} {struct : String} {v w : Value} {x : Word}
    (same : w.blur = v.blur) :
    signingHash d s struct w = .ok x ↔ signingHash d s struct v = .ok x := by
  rw [signingHash_eq_ok_iff, signingHash_eq_ok_iff, ← s.structMeaning?_blur struct w, same,
    s.structMeaning?_blur]

theorem Member.ofTree?_toTree (m : Member) : ofTree? m.toTree = some m := by
  have slots : m.toTree.slots? ["name", "type"] =
      some [some (.ofText m.name), some (.ofText m.kind)] :=
    Tree.slots?_self (show ["name", "type"].Nodup by decide)
  rw [ofTree?, slots]
  rfl

theorem Schema.ofTree?_toTree (s : Schema) : ofTree? s.toTree = some s := by
  have members (ms : List Member) :
      Tree.listOf? Member.ofTree? (.list (ms.map Member.toTree)) = some ms := by
    rw [Tree.listOf?_map Member.ofTree?_toTree, List.map_id']
  have definitions : (s.structs.map fun d => (some d.1, Tree.list (d.2.map Member.toTree))).mapM
      definition? = some s.structs := by
    generalize s.structs = ds
    induction ds with
    | nil => rfl
    | cons d rest ih => simp [definition?, members, ih]
  have tree : s.toTree = .record (s.structs.map fun d =>
      (some d.1, Tree.list (d.2.map Member.toTree))) := by
    rw [toTree, Tree.ofMembers, List.map_map]
    rfl
  rw [tree, ofTree?, definitions, Option.map_some, Option.some.injEq]
  obtain ⟨structs, sorted⟩ := s
  simp only [ofList, Json.sortMembers_of_sorted sorted]

namespace Payload

def memberTrees (p : Payload) (domain message : Tree) : List (String × Tree) :=
  [("types", p.schema.toTree), ("primaryType", .ofText p.primaryType), ("domain", domain),
    ("message", message)]

theorem ofTree?_of_perm {p : Payload} {domain message : Tree} {members : List (String × Tree)}
    (arranged : members.Perm (p.memberTrees domain message))
    (hd : Domain.ofTree? domain = some p.domain)
    {v : Value} (hm : Value.ofTree? (Value.maxDepth - 1) message = some v) :
    ofTree? (.ofMembers members) = some { p with message := v } := by
  have distinct : ((p.memberTrees domain message).map (·.1)).Nodup :=
    show ["types", "primaryType", "domain", "message"].Nodup by decide
  have slots : (Tree.ofMembers members).slots? ["types", "primaryType", "domain", "message"] =
      some [some p.schema.toTree, some (.ofText p.primaryType), some domain, some message] :=
    (Tree.slots?_eq_of_perm arranged distinct _).trans (Tree.slots?_self distinct)
  rw [ofTree?, slots]
  simp only [Slot.required?, Option.bind_some, Schema.ofTree?_toTree, hd, hm]
  rfl

theorem message_of_ofTree? {p : Payload} {t : Tree} (h : ofTree? t = some p) :
    ∃ message, Value.ofTree? (Value.maxDepth - 1) message = some p.message := by
  unfold ofTree? at h
  split at h
  · next types primaryType domain message slots =>
    obtain ⟨schema, _, h⟩ := Option.bind_eq_some_iff.1 h
    obtain ⟨struct, _, h⟩ := Option.bind_eq_some_iff.1 h
    obtain ⟨d, _, h⟩ := Option.bind_eq_some_iff.1 h
    obtain ⟨v, read, h⟩ := Option.bind_eq_some_iff.1 h
    obtain rfl := Option.some.inj h
    obtain ⟨tree, _, read⟩ := Option.bind_eq_some_iff.1 read
    exact ⟨tree, read⟩
  · contradiction

/-- A payload that was read is read again, with a message that is the same up to binary numbers. -/
theorem exists_ofTree?_toTree {p : Payload} {t : Tree} (h : ofTree? t = some p) :
    ∃ v, ofTree? p.toTree = some { p with message := v } ∧ v.blur = p.message.blur := by
  obtain ⟨message, read⟩ := message_of_ofTree? h
  obtain ⟨v, again, same⟩ := Value.survives_of_ofTree? _ message read
  exact ⟨v, ofTree?_of_perm (.refl _) p.domain.ofTree?_toTree_self again, same⟩

end Payload

end TypedData

namespace Order

open TypedData (Domain Payload)

def payload (o : Order) (d : Domain) : Payload :=
  ⟨schema, struct, d, o.message⟩

theorem signingHash_payload (o : Order) (d : Domain) :
    (o.payload d).signingHash = o.signingHash d :=
  rfl

theorem ofTree?_toTree_message (o : Order) (depth : ℕ) :
    Value.ofTree? (depth + 1) o.message.toTree = some o.message := by
  have choice (n : ℕ) (small : n < 3) : Value.Reads (· = ·) depth (.number (.int n)) :=
    Value.reads_int (by omega) (by omega)
  have side : o.side.number < 3 := by cases o.side <;> decide
  have kind : o.signatureKind.number < 3 := by cases o.signatureKind <;> decide
  refine Value.ofTree?_toTree_ofMembers ?_
  simp only [List.forall_mem_cons, List.not_mem_nil, false_implies, implies_true, numeral,
    Value.reads_text, choice, side, kind, and_self]

end Order

namespace TypedData

/-- A payload that was read from a text, and written as JSON, is read from that again, with the same
digest or with none if it had none. A text that spells the payload of an order under a domain, in
whichever order its members are and however the domain is written, is read as that payload, whose
digest is the one that is signed for the order; the payload's own text is one of these. -/
theorem digest_survives_text :
    (∀ (text : String) (p : Payload), (Tree.parse? text).bind Payload.ofTree? = some p →
      ∃ q, (Tree.parse? p.toTree.render).bind Payload.ofTree? = some q ∧
        ∀ x, q.signingHash = .ok x ↔ p.signingHash = .ok x) ∧
    ∀ (o : Order) (d : Domain), (o.payload d).signingHash = o.signingHash d ∧
      (Tree.parse? (o.payload d).toTree.render).bind Payload.ofTree? = some (o.payload d) ∧
      ∀ (text : String) (domain : Tree) (members : List (String × Tree)),
        Tree.parse? text = some (.ofMembers members) → Domain.ofTree? domain = some d →
        members.Perm ((o.payload d).memberTrees domain o.message.toTree) →
        (Tree.parse? text).bind Payload.ofTree? = some (o.payload d) := by
  refine ⟨fun text p read => ?_, fun o d => ⟨o.signingHash_payload d, ?_, ?_⟩⟩
  · obtain ⟨tree, -, read⟩ := Option.bind_eq_some_iff.1 read
    obtain ⟨v, again, same⟩ := Payload.exists_ofTree?_toTree read
    refine ⟨_, by rw [Tree.parse?_render, Option.bind_some, again], fun x => ?_⟩
    exact signingHash_congr same
  · rw [Tree.parse?_render, Option.bind_some]
    exact Payload.ofTree?_of_perm (.refl _) d.ofTree?_toTree_self (o.ofTree?_toTree_message 125)
  · intro text domain members parsed read arranged
    rw [parsed, Option.bind_some]
    exact Payload.ofTree?_of_perm arranged read (o.ofTree?_toTree_message 125)

theorem digest_survives_text_ballot :
    let d := Domain.attestation Contracts.polygon
    let p : Payload := ⟨ballots, "Ballot", d, ballot (.number (.int 7))⟩
    let a : Address := FixedBytes.ofNat 20 1
    let n := Uint.zero 64
    let token : Uint256 := ⟨7, by decide⟩
    let o : Order := ⟨n, a, a, .zero, token, n, n, n, n, n, .sell, .proxyWallet⟩
    let members := ((o.payload d).memberTrees d.toTree o.message.toTree).reverse
    (Tree.parse? p.toTree.render).bind Payload.ofTree? = some p ∧
      (∃ q x, (Tree.parse? p.toTree.render).bind Payload.ofTree? = some q ∧
        p.signingHash = .ok x ∧ q.signingHash = .ok x) ∧
      (Tree.parse? (Tree.ofMembers members).render).bind Payload.ofTree? = some (o.payload d) := by
  intro d p a n token o members
  have message : Value.ofTree? (Value.maxDepth - 1) p.message.toTree = some p.message := rfl
  have read : (Tree.parse? p.toTree.render).bind Payload.ofTree? = some p := by
    rw [Tree.parse?_render, Option.bind_some]
    exact Payload.ofTree?_of_perm (.refl _) d.ofTree?_toTree_self message
  have seven : Kind.meaning? (.number (.int 7)) (.uint 8) = some (.integer 7) := rfl
  obtain ⟨outer, inner, told⟩ := structMeaning?_ballot
  obtain ⟨survives, orders⟩ := digest_survives_text
  obtain ⟨q, again, same⟩ := survives _ p read
  have digest : p.signingHash = .ok _ := signingHash_eq_ok_iff.2 ⟨_, told _ _ seven, rfl⟩
  refine ⟨read, ⟨q, _, again, digest, (same _).2 digest⟩, ?_⟩
  exact (orders o d).2.2 _ d.toTree members (Tree.parse?_render _) d.ofTree?_toTree_self
    (List.reverse_perm _)

end TypedData

end VenueSigner
