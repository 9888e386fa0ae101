import VenueSigner.Proofs.Commitment
import VenueSigner.Proofs.Meaning
/-!
The digest that is signed for a message commits to its domain and to everything that the message
says, at whatever depth: two messages under one schema have one digest if and only if their domains
are the same and they say the same, unless two different byte strings hashed on the way have one
digest.
-/

namespace VenueSigner.TypedData

open Json (Value)

namespace Meaning

mutual

/-- The byte strings that are hashed for a word. -/
def hashed : Meaning → List Bytes
  | text s => [Bytes.ofText s]
  | bytes b => [b]
  | address _ | bool _ | integer _ | fixedBytes _ => []
  | struct type members =>
    ((Keccak.digestText type).bytes ++ words members) :: Bytes.ofText type :: hashedAll members

def hashedAll : List (String × Meaning) → List Bytes
  | [] => []
  | (_, m) :: rest => m.hashed ++ hashedAll rest

end

theorem subset_of_cons {first : Meaning} {name : String} {others : List (String × Meaning)}
    {xs : List Bytes} (sub : hashedAll ((name, first) :: others) ⊆ xs) :
    first.hashed ⊆ xs ∧ hashedAll others ⊆ xs := by
  rw [hashedAll] at sub
  exact List.append_subset.1 sub

def signed (m : Meaning) (d : Domain) : List Bytes :=
  preimage d m.encoding :: (m.hashed ++ d.hashed)

end Meaning

namespace Kind

theorem intWord_injective {m n : Int} (hm : -2 ^ 255 ≤ m ∧ m < 2 ^ 255)
    (hn : -2 ^ 255 ≤ n ∧ n < 2 ^ 255) (h : intWord m = intWord n) : m = n := by
  have same := FixedBytes.ofNat_injective (by omega) (by omega) h
  omega

theorem bounds_of_fitsInt {bits : Nat} {n : Int} (le : bits ≤ 256) (h : fitsInt bits n = true) :
    -2 ^ 255 ≤ n ∧ n < 2 ^ 255 := by
  rw [fitsInt, Bool.and_eq_true, decide_eq_true_eq, decide_eq_true_eq] at h
  have power : 2 ^ (bits - 1) ≤ 2 ^ 255 := Nat.pow_le_pow_right (by decide) (by omega)
  have room : (2 : Int) ^ (bits - 1) ≤ 2 ^ 255 := by exact_mod_cast power
  omega

theorem leftWord_injective {a b : Bytes} (same : a.length = b.length) (few : a.length ≤ 32)
    (h : leftWord a = leftWord b) : a = b := by
  have padded : Bytes.padRight 32 (a.take 32) = Bytes.padRight 32 (b.take 32) :=
    congrArg FixedBytes.bytes h
  rw [List.take_of_length_le few, List.take_of_length_le (by omega)] at padded
  exact (List.append_inj padded same).1

theorem boolWord_injective {a b : Bool}
    (h : FixedBytes.ofNat 32 a.toNat = FixedBytes.ofNat 32 b.toNat) : a = b := by
  have small (b : Bool) : b.toNat < 2 ^ 256 := by cases b <;> decide
  have tells : ∀ a b : Bool, a.toNat = b.toNat → a = b := by decide
  exact tells a b (FixedBytes.ofNat_injective (small a) (small b) h)

/-- Without a collision the word of an atom tells what it says. -/
theorem eq_of_word_eq {k : Kind} {xs ys : List Bytes} {v w : Value} {m n : Meaning} (fits : k.Fits)
    (free : ¬ Keccak.Collides xs ys) (hm : k.meaning? v = some m) (hn : k.meaning? w = some n)
    (subM : m.hashed ⊆ xs) (subN : n.hashed ⊆ ys) (h : m.word = n.word) : m = n := by
  cases k with
  | text =>
    obtain ⟨a, _, rfl⟩ := Option.map_eq_some_iff.1 hm
    obtain ⟨b, _, rfl⟩ := Option.map_eq_some_iff.1 hn
    rw [Meaning.hashed] at subM subN
    rw [Meaning.word, Meaning.word] at h
    rw [Keccak.eq_of_digestText_eq free (subM List.mem_cons_self) (subN List.mem_cons_self) h]
  | bytes =>
    obtain ⟨a, _, rfl⟩ := Option.map_eq_some_iff.1 hm
    obtain ⟨b, _, rfl⟩ := Option.map_eq_some_iff.1 hn
    rw [Meaning.hashed] at subM subN
    rw [Meaning.word, Meaning.word] at h
    rw [Keccak.eq_of_digest_eq free (subM List.mem_cons_self) (subN List.mem_cons_self) h]
  | address =>
    obtain ⟨a, _, rfl⟩ := Option.map_eq_some_iff.1 hm
    obtain ⟨b, _, rfl⟩ := Option.map_eq_some_iff.1 hn
    rw [Meaning.word, Meaning.word] at h
    rw [Address.toWord_injective h]
  | bool =>
    obtain ⟨a, _, rfl⟩ := Option.map_eq_some_iff.1 hm
    obtain ⟨b, _, rfl⟩ := Option.map_eq_some_iff.1 hn
    rw [Meaning.word, Meaning.word] at h
    rw [boolWord_injective h]
  | uint bits =>
    obtain ⟨a, ha, rfl⟩ := Option.map_eq_some_iff.1 hm
    obtain ⟨b, hb, rfl⟩ := Option.map_eq_some_iff.1 hn
    have power : 2 ^ bits ≤ 2 ^ 256 := Nat.pow_le_pow_right (by decide) fits
    have boundA : a < 2 ^ bits := of_decide_eq_true (Option.filter_eq_some_iff.1 ha).2
    have boundB : b < 2 ^ bits := of_decide_eq_true (Option.filter_eq_some_iff.1 hb).2
    rw [Meaning.word, Meaning.word, intWord_natCast (by omega), intWord_natCast (by omega)] at h
    rw [FixedBytes.ofNat_injective (by omega) (by omega) h]
  | int bits =>
    obtain ⟨a, ha, rfl⟩ := Option.map_eq_some_iff.1 hm
    obtain ⟨b, hb, rfl⟩ := Option.map_eq_some_iff.1 hn
    rw [Meaning.word, Meaning.word] at h
    have boundsA := bounds_of_fitsInt fits (Option.filter_eq_some_iff.1 ha).2
    have boundsB := bounds_of_fitsInt fits (Option.filter_eq_some_iff.1 hb).2
    rw [intWord_injective boundsA boundsB h]
  | fixedBytes size =>
    obtain ⟨a, ha, rfl⟩ := Option.map_eq_some_iff.1 hm
    obtain ⟨b, hb, rfl⟩ := Option.map_eq_some_iff.1 hn
    rw [Meaning.word, Meaning.word] at h
    have lengthA := Bytes.length_padRight (of_decide_eq_true (Option.filter_eq_some_iff.1 ha).2)
    have lengthB := Bytes.length_padRight (of_decide_eq_true (Option.filter_eq_some_iff.1 hb).2)
    have few : (Bytes.padRight size a).length ≤ 32 := Nat.le_trans (Nat.le_of_eq lengthA) fits
    rw [leftWord_injective (lengthA.trans lengthB.symm) few h]

end Kind

namespace Schema

mutual

/-- Without a collision the word of a value tells what it says. The recursion follows the first of
the two values. -/
theorem eq_of_word_eq {s : Schema} {xs ys : List Bytes} (free : ¬ Keccak.Collides xs ys)
    (kind : String) (v w : Value) {m n : Meaning} (hm : s.meaning? kind v = some m)
    (hn : s.meaning? kind w = some n) (subM : m.hashed ⊆ xs) (subN : n.hashed ⊆ ys)
    (h : m.word = n.word) : m = n := by
  rw [meaning?] at hm hn
  split at hm
  · contradiction
  · next atom =>
    rw [if_neg atom] at hn
    split at hm
    · next has =>
      rw [if_pos has] at hn
      exact eq_of_struct_word_eq free kind v w hm hn subM subN h
    · next has =>
      rw [if_neg has] at hn
      obtain ⟨k, named, hm⟩ := Option.bind_eq_some_iff.1 hm
      rw [named, Option.bind_some] at hn
      exact Kind.eq_of_word_eq (Kind.fits_of_ofName? named) free hm hn subM subN h
termination_by (sizeOf v, 1, 0)

theorem eq_of_struct_word_eq {s : Schema} {xs ys : List Bytes} (free : ¬ Keccak.Collides xs ys)
    (struct : String) (v w : Value) {m n : Meaning} (hm : s.structMeaning? struct v = some m)
    (hn : s.structMeaning? struct w = some n) (subM : m.hashed ⊆ xs) (subN : n.hashed ⊆ ys)
    (h : m.word = n.word) : m = n := by
  obtain ⟨ms, object, type, members, known, _, spelled, said, _⟩ := structMeaning?_eq_some_iff.1 hm
  obtain ⟨ms', object', type', members', known', _, spelled', said', _⟩ :=
    structMeaning?_eq_some_iff.1 hn
  subst v w m n
  obtain rfl : ms = ms' := Option.some.inj (known.symm.trans known')
  obtain rfl : type = type' := Option.some.inj (spelled.symm.trans spelled')
  rw [Meaning.hashed] at subM subN
  rw [Meaning.word, Meaning.word] at h
  have encodings := Keccak.eq_of_digest_eq free (subM List.mem_cons_self)
    (subN List.mem_cons_self) h
  have words := List.append_cancel_left encodings
  have restM : Meaning.hashedAll members ⊆ xs := fun _ hb =>
    subM (List.mem_cons_of_mem _ (List.mem_cons_of_mem _ hb))
  have restN : Meaning.hashedAll members' ⊆ ys := fun _ hb =>
    subN (List.mem_cons_of_mem _ (List.mem_cons_of_mem _ hb))
  rw [eq_of_words_eq free object object' ms said said' restM restN words]
termination_by (sizeOf v, 0, 0)

theorem eq_of_words_eq {s : Schema} {xs ys : List Bytes} (free : ¬ Keccak.Collides xs ys)
    (object object' : List (String × Value)) :
    ∀ (ms : List Member) {members members' : List (String × Meaning)},
      s.memberMeanings? object ms = some members → s.memberMeanings? object' ms = some members' →
      Meaning.hashedAll members ⊆ xs → Meaning.hashedAll members' ⊆ ys →
      Meaning.words members = Meaning.words members' → members = members'
  | [], members, members', hm, hn, _, _, _ => by
    rw [memberMeanings?] at hm hn
    rw [← Option.some.inj hm, ← Option.some.inj hn]
  | m :: rest, members, members', hm, hn, subM, subN, h => by
    obtain ⟨v, first, others, found, said, more, _⟩ := memberMeanings?_cons_eq_some_iff.1 hm
    obtain ⟨w, first', others', _, said', more', _⟩ := memberMeanings?_cons_eq_some_iff.1 hn
    subst members members'
    obtain ⟨subFirst, subOthers⟩ := Meaning.subset_of_cons subM
    obtain ⟨subFirst', subOthers'⟩ := Meaning.subset_of_cons subN
    rw [Meaning.words, Meaning.words] at h
    obtain ⟨word, words⟩ := FixedBytes.append_inj h
    rw [eq_of_word_eq free m.kind v w said said' subFirst subFirst' word,
      eq_of_words_eq free object object' rest more more' subOthers subOthers' words]
termination_by ms => (sizeOf object, 2, ms.length)
decreasing_by
  · exact Prod.Lex.left _ _ (sizeOf_lookup_lt (by assumption))
  · exact Prod.Lex.right _ (Prod.Lex.right _ (Nat.lt_succ_self _))

end

end Schema

variable {s : Schema} {struct : String} {d e : Domain} {v w : Value} {x y : Word} {m n : Meaning}

theorem signingHash_eq_ok_iff : signingHash d s struct v = .ok x ↔
    ∃ m, s.structMeaning? struct v = some m ∧ Keccak.digest (preimage d m.encoding) = x := by
  have image : (signingHash d s struct v).toOption =
      (s.structMeaning? struct v).map fun m => Keccak.digest (preimage d m.encoding) := by
    simp only [signingHash, Schema.hashStruct, Result.toOption_bind, Result.toOption_pure,
      s.toOption_encodeStruct, Option.map_eq_bind, Option.bind_assoc, Option.bind_some,
      Function.comp_def, signingDigest_eq]
  rw [← Option.map_eq_some_iff, ← image]
  constructor
  · intro h
    rw [h]
    rfl
  · exact Result.eq_ok_of_toOption

theorem eq_of_preimage_eq (free : ¬ Keccak.Collides (m.signed d) (n.signed e))
    (hm : s.structMeaning? struct v = some m) (hn : s.structMeaning? struct w = some n)
    (h : preimage d m.encoding = preimage e n.encoding) : d = e ∧ m = n := by
  obtain ⟨separators, structs⟩ := parts_of_preimage_eq h
  have hashedM : m.hashed ⊆ m.signed d := fun _ hb =>
    List.mem_cons_of_mem _ (List.mem_append_left _ hb)
  have hashedN : n.hashed ⊆ n.signed e := fun _ hb =>
    List.mem_cons_of_mem _ (List.mem_append_left _ hb)
  have hashedD : d.hashed ⊆ m.signed d := fun _ hb =>
    List.mem_cons_of_mem _ (List.mem_append_right _ hb)
  have hashedE : e.hashed ⊆ n.signed e := fun _ hb =>
    List.mem_cons_of_mem _ (List.mem_append_right _ hb)
  rw [← Schema.word_eq_digest_encoding hm, ← Schema.word_eq_digest_encoding hn] at structs
  exact ⟨Domain.eq_of_separator_eq free hashedD hashedE separators,
    Schema.eq_of_struct_word_eq free struct v w hm hn hashedM hashedN structs⟩

/-- Two messages that have digests under one schema each say something. The same domain with the
same said has one digest, whatever the spelling. If conversely the digests are the same, then so are
the domains, member by member, and what the messages say, down to every declared leaf, or two
different byte strings hashed on the way have one digest. So nothing that is declared can be changed
unnoticed. -/
theorem signingHash_commits (hx : signingHash d s struct v = .ok x)
    (hy : signingHash e s struct w = .ok y) :
    ∃ m n, s.structMeaning? struct v = some m ∧ s.structMeaning? struct w = some n ∧
      (d = e ∧ m = n → x = y) ∧
      (x = y → (d = e ∧ m = n) ∨ Keccak.Collides (m.signed d) (n.signed e)) := by
  obtain ⟨m, hm, rfl⟩ := signingHash_eq_ok_iff.1 hx
  obtain ⟨n, hn, rfl⟩ := signingHash_eq_ok_iff.1 hy
  refine ⟨m, n, hm, hn, ?_, fun same => ?_⟩
  · rintro ⟨rfl, rfl⟩
    rfl
  · by_cases free : Keccak.Collides (m.signed d) (n.signed e)
    · exact .inr free
    · have signed := Keccak.eq_of_digest_eq free List.mem_cons_self List.mem_cons_self same
      exact .inl (eq_of_preimage_eq free hm hn signed)

def ballots : Schema := .ofList [("Ballot", [⟨"vote", "Vote"⟩]), ("Vote", [⟨"choice", "uint8"⟩])]

def ballot (choice : Value) : Value :=
  .record [("vote", .record [("choice", choice)])]

theorem structMeaning?_ballot : ∃ outer inner, ∀ choice m,
    Kind.meaning? choice (.uint 8) = some m → ballots.structMeaning? "Ballot" (ballot choice) =
      some (.struct outer [("vote", .struct inner [("choice", m)])]) := by
  have knownBallot : ballots.members? "Ballot" = some [⟨"vote", "Vote"⟩] := rfl
  have knownVote : ballots.members? "Vote" = some [⟨"choice", "uint8"⟩] := rfl
  have spelled {struct : String} {ms : List Member} (known : ballots.members? struct = some ms) :
      ∃ type, ballots.typeText? struct = some type := by
    rw [Schema.typeText?, known]
    exact ⟨_, rfl⟩
  obtain ⟨outer, spelledBallot⟩ := spelled knownBallot
  obtain ⟨inner, spelledVote⟩ := spelled knownVote
  refine ⟨outer, inner, fun choice m said => ?_⟩
  have atom : ballots.meaning? "uint8" choice = some m := by
    rw [Schema.meaning?, if_neg Kind.names_uint8.1, Kind.names_uint8.2]
    exact said
  have vote : ballots.meaning? "Vote" (.record [("choice", choice)]) =
      some (.struct inner [("choice", m)]) := by
    rw [Schema.meaning?, if_neg (by decide), if_pos (show ballots.has "Vote" = true from rfl)]
    exact Schema.structMeaning?_eq_some_iff.2 ⟨_, _, inner, _, knownVote, rfl, spelledVote,
      Schema.memberMeanings?_cons_eq_some_iff.2
        ⟨choice, m, [], rfl, atom, by rw [Schema.memberMeanings?], rfl⟩, rfl⟩
  exact Schema.structMeaning?_eq_some_iff.2 ⟨_, _, outer, _, knownBallot, rfl, spelledBallot,
    Schema.memberMeanings?_cons_eq_some_iff.2
      ⟨_, _, [], rfl, vote, by rw [Schema.memberMeanings?], rfl⟩, rfl⟩

theorem signingHash_commits_ballot :
    let d := Domain.attestation Contracts.polygon
    let digest choice := signingHash d ballots "Ballot" (ballot choice)
    ∃ x y m n, digest (.number (.int 7)) = .ok x ∧ digest (.text "0x07") = .ok x ∧
      digest (.text "8") = .ok y ∧
      ballots.structMeaning? "Ballot" (ballot (.number (.int 7))) = some m ∧
      ballots.structMeaning? "Ballot" (ballot (.text "8")) = some n ∧
      (x = y → Keccak.Collides (m.signed d) (n.signed d)) := by
  intro d digest
  obtain ⟨outer, inner, told⟩ := structMeaning?_ballot
  have number : Kind.meaning? (.number (.int 7)) (.uint 8) = some (.integer 7) := rfl
  have numeral (t : String) (n : Nat) (h : Kind.natural? (.text t) = some n) (small : n < 2 ^ 8) :
      Kind.meaning? (.text t) (.uint 8) = some (.integer n) := by
    rw [Kind.meaning?, h, Option.filter_some, if_pos (decide_eq_true small)]
    rfl
  have hexadecimal := numeral "0x07" 7 rfl (by decide)
  have eight := numeral "8" 8 rfl (by decide)
  have succeeds {choice m} (said : Kind.meaning? choice (.uint 8) = some m) :
      ∃ x, digest choice = .ok x :=
    ⟨_, signingHash_eq_ok_iff.2 ⟨_, told choice m said, rfl⟩⟩
  obtain ⟨x, hx⟩ := succeeds number
  obtain ⟨z, hz⟩ := succeeds hexadecimal
  obtain ⟨y, hy⟩ := succeeds eight
  obtain ⟨m, n, hm, hn, same, _⟩ := signingHash_commits hx hz
  rw [told _ _ number] at hm
  rw [told _ _ hexadecimal] at hn
  have one : x = z := same ⟨rfl, Option.some.inj (hm.symm.trans hn)⟩
  obtain ⟨m, n, hm, hn, _, differ⟩ := signingHash_commits hx hy
  refine ⟨x, y, m, n, hx, one ▸ hz, hy, hm, hn, fun equal => ?_⟩
  refine (differ equal).resolve_left ?_
  rintro ⟨_, said⟩
  rw [told _ _ number] at hm
  rw [told _ _ eight] at hn
  rw [← Option.some.inj hm, ← Option.some.inj hn] at said
  simp at said

end VenueSigner.TypedData
