import VenueSigner.Proofs.JsonRecord
import VenueSigner.Proofs.JsonText
import VenueSigner.Proofs.StructEncoding
import VenueSigner.TypedData.Payload
/-!
The encoder that is written for domains agrees with the one for structs under a schema: a domain is
encoded like the message that it is written as, under the schema of one struct with the members that
the domain has.
-/

namespace VenueSigner

open Json (Tree Value)

theorem Json.lookup_sortMembers_of_mem {α : Type} {ms : List (String × α)} {name : String} {a : α}
    (distinct : (ms.map (·.1)).Nodup) (h : (name, a) ∈ ms) :
    (Json.sortMembers ms).lookup name = some a := by
  have reversed : (ms.reverse.map (·.1)).Nodup := by
    rw [List.map_reverse]
    exact List.nodup_reverse.2 distinct
  rw [Json.lookup_sortMembers]
  exact (Json.lookup_eq_some_iff reversed).2 (List.mem_reverse.2 h)

namespace TypedData

theorem Kind.names_bytes32 : Names "bytes32" (.fixedBytes 32) := ⟨by decide, rfl⟩

theorem Kind.leftWord_bytes (w : Word) : leftWord w.bytes = w := by
  apply FixedBytes.ext
  change Bytes.padRight 32 (w.bytes.take 32) = w.bytes
  rw [List.take_of_length_le (Nat.le_of_eq w.length_eq), Bytes.padRight, w.length_eq]
  exact List.append_nil _

theorem Kind.encode_word (name : String) (w : Word) :
    Kind.encode name (.text (Hex.encodePrefixed w.bytes)) (.fixedBytes 32) = .ok w := by
  have read : Hex.parse (Hex.encodePrefixed w.bytes) = .ok w.bytes := by
    rw [Hex.parse, Hex.decode_encodePrefixed]
    rfl
  simp only [Kind.encode, Kind.encodeFixedBytes, Kind.hexText]
  simp only [bind, Except.bind, pure, Except.pure, read, w.length_eq, Nat.le_refl, ↓reduceIte,
    leftWord_bytes]

namespace Domain

def memberOf {α : Type} (name kind : String) : Option α → List Member
  | none => []
  | some _ => [⟨name, kind⟩]

def members (d : Domain) : List Member :=
  memberOf "name" "string" d.name ++ memberOf "version" "string" d.version ++
    memberOf "chainId" "uint256" d.chainId ++
    memberOf "verifyingContract" "address" d.verifyingContract ++ memberOf "salt" "bytes32" d.salt

/-- The schema whose only struct has the members that the domain has. -/
def schema (d : Domain) : Schema := .ofList [("EIP712Domain", d.members)]

def memberValue {α : Type} (name : String) (read : α → Value) : Option α → List (String × Value)
  | none => []
  | some a => [(name, read a)]

def values (d : Domain) : List (String × Value) :=
  memberValue "name" .text d.name ++ memberValue "version" .text d.version ++
    memberValue "chainId" (fun n => .number (.int n.val)) d.chainId ++
    memberValue "verifyingContract" (fun a => .text a.lowercase) d.verifyingContract ++
    memberValue "salt" (fun w => .text (Hex.encodePrefixed w.bytes)) d.salt

theorem ofMembers?_append {depth : Nat} {ms ns : List (Option String × Tree)}
    {vs ws : List (String × Value)} (hm : Value.ofMembers? depth ms = some vs)
    (hn : Value.ofMembers? depth ns = some ws) :
    Value.ofMembers? depth (ms ++ ns) = some (vs ++ ws) := by
  induction ms generalizing vs with
  | nil =>
    cases hm
    exact hn
  | cons m rest ih =>
    obtain ⟨k, t⟩ := m
    simp only [Value.ofMembers?, Option.bind_eq_bind, Option.bind_eq_some_iff] at hm
    obtain ⟨name, rfl, v, first, us, others, same⟩ := hm
    cases same
    simp only [List.cons_append, Value.ofMembers?, Option.bind_eq_bind, Option.bind_some, first,
      ih others]
    rfl

theorem ofMembers?_memberTree {α : Type} {depth : Nat} {write : α → Tree} {read : α → Value}
    (name : String) (h : ∀ a, Value.ofTree? depth (write a) = some (read a)) (o : Option α) :
    Value.ofMembers? depth ((memberTree name write o).map fun m => (some m.1, m.2)) =
      some (memberValue name read o) := by
  cases o with
  | none => rfl
  | some a =>
    simp only [memberTree, List.map_cons, List.map_nil, Value.ofMembers?, Option.bind_eq_bind,
      Option.bind_some, h]
    rfl

theorem ofTree?_ofUint {depth : Nat} (n : Uint64) :
    Value.ofTree? depth (.ofUint n) = some (.number (.int n.val)) := by
  have fits : (!false && decide (n.val < 2 ^ 64)) = true := decide_eq_true n.val_lt
  have read : Json.Number.ofLiteral? (.ofNat n.val) = some (.int n.val) := if_pos fits
  change (Json.Number.ofLiteral? (.ofNat n.val)).map Value.number = _
  rw [read, Option.map_some]

theorem ofTree?_toTree (d : Domain) (depth : Nat) :
    Value.ofTree? (depth + 1) d.toTree = some (.ofMembers d.values) := by
  have read : Value.ofMembers? depth ((memberTree "name" .ofText d.name ++
      memberTree "version" .ofText d.version ++ memberTree "chainId" .ofUint d.chainId ++
      memberTree "verifyingContract" (fun a : Address => .ofBytes a.bytes) d.verifyingContract ++
      memberTree "salt" (fun w : Word => .ofBytes w.bytes) d.salt).map
        fun m => (some m.1, m.2)) = some d.values := by
    simp only [List.map_append, values]
    exact ofMembers?_append (ofMembers?_append (ofMembers?_append (ofMembers?_append
      (ofMembers?_memberTree _ (fun _ => rfl) _) (ofMembers?_memberTree _ (fun _ => rfl) _))
      (ofMembers?_memberTree _ ofTree?_ofUint _)) (ofMembers?_memberTree _ (fun _ => rfl) _))
      (ofMembers?_memberTree _ (fun _ => rfl) _)
  rw [toTree, Tree.ofMembers, Value.ofTree?]
  simp only [read, Option.map_some]
  rfl

theorem parse?_render (d : Domain) :
    Value.parse? d.toTree.render = some (.ofMembers d.values) := by
  rw [Value.parse?, Tree.parse?_render, Option.bind_some]
  exact d.ofTree?_toTree 126

theorem map_fst_memberValue {α : Type} (name : String) (read : α → Value) (o : Option α) :
    ((memberValue name read o).map (·.1)).Sublist [name] := by
  cases o with
  | none => exact List.nil_sublist _
  | some a => exact .refl _

theorem values_distinct (d : Domain) : (d.values.map (·.1)).Nodup := by
  have all : ["name", "version", "chainId", "verifyingContract", "salt"].Nodup := by decide
  refine List.Nodup.sublist ?_ all
  simp only [values, List.map_append]
  exact ((((map_fst_memberValue ..).append (map_fst_memberValue ..)).append
    (map_fst_memberValue ..)).append (map_fst_memberValue ..)).append (map_fst_memberValue ..)

theorem mem_memberOf {α : Type} {name kind : String} {o : Option α} {m : Member}
    (h : m ∈ memberOf name kind o) : m = ⟨name, kind⟩ := by
  cases o with
  | none => contradiction
  | some a => exact List.mem_singleton.1 h

theorem members_atoms (d : Domain) : ∀ m ∈ d.members, m.base ≠ "EIP712Domain" := by
  intro m h
  simp only [members, List.mem_append] at h
  obtain (((h | h) | h) | h) | h := h <;> rw [mem_memberOf h] <;> decide

theorem map_text_memberOf {α : Type} (name kind : String) (word : α → Word) (o : Option α) :
    (memberOf name kind o).map Member.text =
      (entry (kind ++ " " ++ name) word o).map (·.1) := by
  cases o with
  | none => rfl
  | some a => rfl

theorem definitionText_members (d : Domain) :
    Schema.definitionText "EIP712Domain" d.members = d.typeText := by
  have texts : d.members.map Member.text = d.entries.map (·.1) := by
    simp only [members, entries, List.map_append]
    congr 1
    · congr 1
      · congr 1
        · congr 1
          · exact map_text_memberOf ..
          · exact map_text_memberOf ..
        · exact map_text_memberOf ..
      · exact map_text_memberOf ..
    · exact map_text_memberOf ..
  rw [Schema.definitionText, texts, typeText]
  rfl

theorem gives_memberOf {α : Type} {d : Domain} {name kind declaration : String} {k : Kind}
    {word : α → Word} {read : α → Value} {o : Option α} (named : Kind.Names kind k)
    (atom : kind ≠ "EIP712Domain") (encoded : ∀ a, k.encode kind (read a) = .ok (word a))
    (present : memberValue name read o ⊆ d.values) :
    List.Forall₂ (d.schema.Gives (Json.sortMembers d.values)) (memberOf name kind o)
      ((entry declaration word o).map (·.2)) := by
  cases o with
  | none => exact .nil
  | some a =>
    have found := Json.lookup_sortMembers_of_mem d.values_distinct (present List.mem_cons_self)
    exact .cons (Schema.gives_atom named atom found (encoded a)) .nil

theorem gives_members (d : Domain) : List.Forall₂ (d.schema.Gives (Json.sortMembers d.values))
    d.members (d.entries.map (·.2)) := by
  have numbered (n : Uint64) : Kind.encode "uint256" (.number (.int n.val)) (.uint 256) =
      .ok n.toWord :=
    Kind.encode_int _ (Nat.lt_of_lt_of_le n.val_lt (Nat.pow_le_pow_right (by decide) (by decide)))
  have mem {m : String × Value} : m ∈ d.values ↔ (((m ∈ memberValue "name" .text d.name ∨
      m ∈ memberValue "version" .text d.version) ∨
      m ∈ memberValue "chainId" (fun n => .number (.int n.val)) d.chainId) ∨
      m ∈ memberValue "verifyingContract" (fun a => .text a.lowercase) d.verifyingContract) ∨
      m ∈ memberValue "salt" (fun w => .text (Hex.encodePrefixed w.bytes)) d.salt := by
    simp only [values, List.mem_append]
  simp only [members, entries, List.map_append]
  refine List.rel_append (List.rel_append (List.rel_append (List.rel_append ?_ ?_) ?_) ?_) ?_
  · exact gives_memberOf Kind.names_string (by decide) (Kind.encode_text _)
      fun _ h => mem.2 (.inl (.inl (.inl (.inl h))))
  · exact gives_memberOf Kind.names_string (by decide) (Kind.encode_text _)
      fun _ h => mem.2 (.inl (.inl (.inl (.inr h))))
  · exact gives_memberOf Kind.names_uint256 (by decide) numbered
      fun _ h => mem.2 (.inl (.inl (.inr h)))
  · exact gives_memberOf Kind.names_address (by decide)
      (fun a => Kind.encode_address _ a.parse_lowercase) fun _ h => mem.2 (.inl (.inr h))
  · exact gives_memberOf Kind.names_bytes32 (by decide) (Kind.encode_word _)
      fun _ h => mem.2 (.inr h)

theorem encodeStruct_eq (d : Domain) :
    d.schema.encodeStruct "EIP712Domain" (.ofMembers d.values) = .ok d.encode := by
  rw [schema, Schema.encodeStruct_single d.members_atoms d.gives_members, d.definitionText_members,
    encode, List.flatMap_cons, List.flatMap_map]

/-- Take the schema of one struct with the members that a domain has, and the message that the
domain is written as. Its type string is that of the domain, it can be encoded, and the bytes and
their digest are those of the domain. -/
theorem encode_eq_encodeStruct (d : Domain) : ∃ m : Value,
    Value.ofTree? Value.maxDepth d.toTree = some m ∧ Value.parse? d.toTree.render = some m ∧
      d.schema.structs = [("EIP712Domain", d.members)] ∧
      d.schema.typeText? "EIP712Domain" = some d.typeText ∧
      d.schema.encodeStruct "EIP712Domain" m = .ok d.encode ∧
      d.schema.hashStruct "EIP712Domain" m = .ok d.separator := by
  refine ⟨.ofMembers d.values, d.ofTree?_toTree 126, d.parse?_render, rfl, ?_, d.encodeStruct_eq,
    ?_⟩
  · rw [schema, Schema.typeText?_single _ _ d.members_atoms, d.definitionText_members]
  · rw [Schema.hashStruct, d.encodeStruct_eq]
    rfl

end Domain

end TypedData

end VenueSigner
