import VenueSigner.Proofs.StructEncoding
/-!
What a message says under a schema. One number can be written as a number or as a numeral, one byte
string in digits of either case, with zeros behind it or without; what a value says is the number or
the bytes themselves. An encoding depends on nothing else.
-/

namespace VenueSigner

namespace Result

variable {α β : Type}

theorem toOption_pure (a : α) : (pure a : Result α).toOption = some a := rfl

theorem toOption_bind (x : Result α) (f : α → Result β) :
    (x >>= f).toOption = x.toOption.bind fun a => (f a).toOption := by
  cases x with
  | error e => rfl
  | ok a => rfl

theorem toOption_guard (x : Option α) (p : α → Prop) [DecidablePred p] (f : α → β)
    (e : α → Error) :
    (x.bind fun a => (if p a then pure (f a) else throw (e a) : Result β).toOption) =
      (x.filter fun a => p a).map f := by
  cases x with
  | none => rfl
  | some a =>
    rw [Option.bind_some, Option.filter_some]
    by_cases h : p a
    · rw [if_pos h, decide_eq_true h]
      rfl
    · rw [if_neg h, decide_eq_false h]
      rfl

/-- All errors of the result meet the condition. -/
def FailsOnly (p : Error → Prop) (r : Result α) : Prop :=
  ∀ e, r = .error e → p e

section Errors

variable {p : Error → Prop}

theorem failsOnly_ok (a : α) : FailsOnly p (.ok a : Result α) := nofun

theorem failsOnly_error {e : Error} (h : p e) : FailsOnly p (.error e : Result α) := by
  rintro _ ⟨⟩
  exact h

theorem FailsOnly.bind {x : Result α} {f : α → Result β} (first : FailsOnly p x)
    (next : ∀ a, FailsOnly p (f a)) : FailsOnly p (x >>= f) := by
  intro e failed
  obtain failed | ⟨a, _, failed⟩ := error_of_bind failed
  · exact first e failed
  · exact next a e failed

end Errors

end Result

theorem Bytes.length_padRight {size : Nat} {b : Bytes} (few : b.length ≤ size) :
    (padRight size b).length = size := by
  rw [padRight, List.length_append, List.length_replicate]
  omega

theorem Hex.toOption_parse (s : String) : (Hex.parse s).toOption = (Hex.decode s).toOption := by
  rw [Hex.parse]
  cases Hex.decode s with
  | error e => rfl
  | ok b => rfl

section Reading

open Result (FailsOnly failsOnly_ok failsOnly_error)

variable {p : Error → Prop}

theorem Hex.failsOnly_parse (digits : ∀ bad, p (.notHex bad)) (s : String) :
    FailsOnly p (Hex.parse s) := by
  unfold Hex.parse
  cases Hex.decode s with
  | ok b => exact failsOnly_ok b
  | error bad => exact failsOnly_error (digits bad)

theorem Uint256.failsOnly_parse (hexDigits : ∀ bad, p (.notHex bad))
    (digits : ∀ t, p (.notDecimal t)) (room : ∀ t, p (.exceedsWord t)) (s : String) :
    FailsOnly p (Uint256.parse s) := by
  simp only [Uint256.parse]
  split
  · refine (Hex.failsOnly_parse hexDigits _).bind fun b => ?_
    split
    · exact failsOnly_ok _
    · exact failsOnly_error (room _)
  · split
    · exact failsOnly_error (digits s)
    · split
      · exact failsOnly_ok _
      · exact failsOnly_error (room _)

end Reading

namespace TypedData

open Json (Value)

/-- What a value says: an atom, of whichever width, or a struct with its type string, the names of
its members and what each of them says. -/
inductive Meaning
  | text (s : String)
  | bytes (b : Bytes)
  | address (a : Address)
  | bool (b : Bool)
  | integer (n : Int)
  | fixedBytes (b : Bytes)
  | struct (type : String) (members : List (String × Meaning))

namespace Meaning

mutual

def word : Meaning → Word
  | text s => Keccak.digestText s
  | bytes b => Keccak.digest b
  | address a => a.toWord
  | bool b => FixedBytes.ofNat 32 b.toNat
  | integer n => Kind.intWord n
  | fixedBytes b => Kind.leftWord b
  | struct type members => Keccak.digest ((Keccak.digestText type).bytes ++ words members)

def words : List (String × Meaning) → Bytes
  | [] => []
  | (_, m) :: rest => m.word.bytes ++ words rest

end

def encoding : Meaning → Bytes
  | struct type members => (Keccak.digestText type).bytes ++ words members
  | _ => []

end Meaning

namespace Kind

def text? : Value → Option String
  | .text s => some s
  | _ => none

def bool? : Value → Option Bool
  | .bool b => some b
  | _ => none

def hexBytes? (v : Value) : Option Bytes :=
  (text? v).bind fun s => (Hex.decode s).toOption

def natural? : Value → Option Nat
  | .number (.int (.ofNat n)) => some n
  | .text s => (Uint256.parse s).toOption.map (·.val)
  | _ => none

def integer? : Value → Option Int
  | .number (.int n) => some n
  | .text s => looseInteger? (Blank.trim s).toList
  | _ => none

/-- What a value says where an atom of a kind is expected. -/
def meaning? (v : Value) : Kind → Option Meaning
  | text => (text? v).map .text
  | bytes => (hexBytes? v).map .bytes
  | address => ((text? v).bind fun s => (Address.parse s).toOption).map .address
  | bool => (bool? v).map .bool
  | uint bits => ((natural? v).filter (· < 2 ^ bits)).map fun n : Nat => .integer n
  | int bits => ((integer? v).filter (fitsInt bits)).map .integer
  | fixedBytes size =>
    ((hexBytes? v).filter (·.length ≤ size)).map fun b => .fixedBytes (Bytes.padRight size b)

def Fits : Kind → Prop
  | uint bits | int bits => bits ≤ 256
  | fixedBytes size => size ≤ 32
  | text | bytes | address | bool => True

theorem le_of_width? {s : List Char} {n : Nat} (h : width? s = some n) : n ≤ 256 := by
  unfold width? at h
  split at h
  · exact Nat.le_of_eq (Option.some.inj h).symm
  · have accepted := (Option.filter_eq_some_iff.1 h).2
    simp only [Bool.and_eq_true, decide_eq_true_eq] at accepted
    exact accepted.1.2

theorem le_of_size? {s : List Char} {n : Nat} (h : size? s = some n) : n ≤ 32 := by
  have accepted := (Option.filter_eq_some_iff.1 h).2
  rw [Bool.and_eq_true, decide_eq_true_eq, decide_eq_true_eq] at accepted
  exact accepted.2

theorem fits_of_ofName? {name : String} {k : Kind} (h : ofName? name = some k) : k.Fits := by
  unfold ofName? at h
  split at h
  case h_5 =>
    unfold sizedOfChars? at h
    split at h
    case h_1 | h_2 =>
      obtain ⟨bits, width, rfl⟩ := Option.map_eq_some_iff.1 h
      exact le_of_width? width
    case h_3 =>
      obtain ⟨size, found, rfl⟩ := Option.map_eq_some_iff.1 h
      exact le_of_size? found
    case h_4 => contradiction
  all_goals
    obtain rfl := Option.some.inj h
    trivial

theorem intWord_natCast {n : Nat} (h : n < 2 ^ 256) : intWord n = FixedBytes.ofNat 32 n := by
  have cast : ((n : Int) % 2 ^ 256).toNat = n := by omega
  rw [intWord, cast]

theorem leftWord_padRight {size : Nat} {b : Bytes} (few : b.length ≤ size) (fits : size ≤ 32) :
    leftWord (Bytes.padRight size b) = leftWord b := by
  have zeros : 32 - b.length = (size - b.length) + (32 - size) := by omega
  have length := Bytes.length_padRight few
  refine FixedBytes.ext ?_
  change Bytes.padRight 32 (List.take 32 (Bytes.padRight size b)) = Bytes.padRight 32 (b.take 32)
  rw [List.take_of_length_le (by omega), List.take_of_length_le (by omega)]
  conv_lhs => rw [Bytes.padRight, length]
  rw [Bytes.padRight, Bytes.padRight, zeros, List.replicate_add, List.append_assoc]

theorem looseNatural?_digits (ds : List Digit) :
    looseNatural? (Digits.toChars ds) = some (Positional.value ds) := by
  have kept : (Digits.toChars ds).filter (· != '_') = Digits.toChars ds := by
    refine List.filter_eq_self.2 fun c h => ?_
    have digit := Digits.toChars_range h
    rw [bne_iff_ne]
    rintro rfl
    exact absurd digit (by decide)
  rw [looseNatural?, kept, Digits.ofChars?_toChars, Option.map_some]

theorem looseInteger?_digits (ds : List Digit) :
    looseInteger? (Digits.toChars ds) = some (Positional.value ds : Int) := by
  have unsigned {c : Char} {rest : List Char} (h : Digits.toChars ds = c :: rest) :
      48 ≤ c.toNat ∧ c.toNat ≤ 57 :=
    Digits.toChars_range (h ▸ List.mem_cons_self)
  rw [looseInteger?.eq_3, looseNatural?_digits]
  · rfl
  · rintro rest signed
    exact absurd (unsigned signed) (by decide)
  · rintro rest signed
    exact absurd (unsigned signed) (by decide)

theorem looseInteger?_minus (ds : List Digit) :
    looseInteger? ('-' :: Digits.toChars ds) = some (-(Positional.value ds : Int)) := by
  rw [looseInteger?, looseNatural?_digits]
  rfl

theorem looseInteger?_intText (n : Int) : looseInteger? (Digits.intText n).toList = some n := by
  cases n with
  | ofNat n =>
    rw [Digits.intText, Digits.text, String.toList_ofList, looseInteger?_digits,
      Digits.value_ofNat]
    rfl
  | negSucc n =>
    have chars : (Digits.intText (.negSucc n)).toList =
        '-' :: Digits.toChars (Digits.ofNat (n + 1)) := by
      simp only [Digits.intText, Digits.text, String.toList_append, String.toList_ofList]
      rfl
    rw [chars, looseInteger?_minus, Digits.value_ofNat]
    rfl

theorem toOption_natural (name : String) (v : Value) : (natural name v).toOption = natural? v := by
  cases v with
  | number n =>
    cases n with
    | int n => cases n <;> rfl
    | binary x => rfl
  | text s =>
    rw [natural, natural?]
    cases Uint256.parse s <;> rfl
  | null | bool b | list items | record members => rfl

theorem toOption_numeral (name : String) (v : Value) :
    ((numeral name v).toOption.bind fun s => looseInteger? s.toList) = integer? v := by
  cases v with
  | number n =>
    cases n with
    | int n => exact looseInteger?_intText n
    | binary x => rfl
  | null | bool b | text s | list items | record members => rfl

theorem toOption_hexText (name : String) (v : Value) : (hexText name v).toOption = text? v := by
  cases v with
  | null | bool b | number n | text s | list items | record members => rfl

theorem toOption_encode {k : Kind} (name : String) (v : Value) (fits : k.Fits) :
    (k.encode name v).toOption = (k.meaning? v).map Meaning.word := by
  cases k with
  | text =>
    cases v with
    | text s => simp only [encode, meaning?, text?, Except.toOption, Option.map_some, Meaning.word]
    | null | bool b | number n | list items | record members => rfl
  | bool =>
    cases v with
    | bool b => simp only [encode, meaning?, bool?, Except.toOption, Option.map_some, Meaning.word]
    | null | text s | number n | list items | record members => rfl
  | bytes =>
    simp only [encode, meaning?, hexBytes?, Result.toOption_bind, Result.toOption_pure,
      toOption_hexText, Hex.toOption_parse, Option.map_eq_bind, Option.bind_assoc, Option.bind_some,
      Function.comp_apply, Meaning.word]
  | address =>
    simp only [encode, meaning?, Result.toOption_bind, Result.toOption_pure, toOption_hexText,
      Option.map_eq_bind, Option.bind_assoc, Option.bind_some, Function.comp_apply, Meaning.word]
  | uint bits =>
    rw [encode, encodeUint, meaning?, Result.toOption_bind, toOption_natural,
      Result.toOption_guard, Option.map_map]
    refine Option.map_congr fun n h => ?_
    have small : n < 2 ^ bits := of_decide_eq_true (Option.filter_eq_some_iff.1 h).2
    have room : n < 2 ^ 256 := Nat.lt_of_lt_of_le small (Nat.pow_le_pow_right (by decide) fits)
    rw [Function.comp_apply, Meaning.word, intWord_natCast room]
  | int bits =>
    rw [encode, encodeInt, meaning?, Result.toOption_bind, ← toOption_numeral name v]
    cases (numeral name v).toOption with
    | none => rfl
    | some s =>
      rw [Option.bind_some, Option.bind_some]
      cases (looseInteger? s.toList).filter (fitsInt bits) with
      | none => rfl
      | some n => simp only [Option.map_some, Meaning.word, Result.toOption_pure]
  | fixedBytes size =>
    simp only [encode, encodeFixedBytes, meaning?, hexBytes?, Result.toOption_bind,
      toOption_hexText, Hex.toOption_parse, ← Option.bind_assoc]
    rw [Result.toOption_guard, Option.map_map]
    refine Option.map_congr fun b h => ?_
    have few : b.length ≤ size := of_decide_eq_true (Option.filter_eq_some_iff.1 h).2
    rw [Function.comp_apply, Meaning.word, leftWord_padRight few fits]

end Kind

namespace Schema

mutual

/-- What a value says where a kind is expected: a struct if the kind is the name of one, else an
atom. Lists say nothing. -/
def meaning? (s : Schema) (kind : String) (v : Value) : Option Meaning :=
  if kind.toList.getLast? = some ']' then none
  else if s.has kind then s.structMeaning? kind v
  else (Kind.ofName? kind).bind (Kind.meaning? v)
termination_by (sizeOf v, 1, 0)

def structMeaning? (s : Schema) (struct : String) (v : Value) : Option Meaning :=
  match s.members? struct with
  | none => none
  | some ms =>
    match v with
    | .record object => do
      let type ← s.typeText? struct
      let members ← s.memberMeanings? object ms
      return .struct type members
    | _ => none
termination_by (sizeOf v, 0, 0)

def memberMeanings? (s : Schema) (object : List (String × Value)) :
    List Member → Option (List (String × Meaning))
  | [] => some []
  | m :: rest =>
    match _found : object.lookup m.name with
    | none => none
    | some v => do
      let first ← s.meaning? m.kind v
      let others ← s.memberMeanings? object rest
      return (m.name, first) :: others
termination_by ms => (sizeOf object, 2, ms.length)
decreasing_by
  · exact Prod.Lex.left _ _ (sizeOf_lookup_lt _found)
  · exact Prod.Lex.right _ (Prod.Lex.right _ (Nat.lt_succ_self _))

end

variable {s : Schema}

theorem structMeaning?_eq_some_iff {struct : String} {v : Value} {m : Meaning} :
    s.structMeaning? struct v = some m ↔
      ∃ ms object type members, s.members? struct = some ms ∧ v = .record object ∧
        s.typeText? struct = some type ∧ s.memberMeanings? object ms = some members ∧
        m = .struct type members := by
  rw [structMeaning?]
  constructor
  · intro h
    split at h
    · contradiction
    · next ms known =>
      split at h
      · next object =>
        obtain ⟨type, spelled, h⟩ := Option.bind_eq_some_iff.1 h
        obtain ⟨members, said, h⟩ := Option.bind_eq_some_iff.1 h
        exact ⟨ms, object, type, members, known, rfl, spelled, said, (Option.some.inj h).symm⟩
      · contradiction
  · rintro ⟨ms, object, type, members, known, rfl, spelled, said, rfl⟩
    rw [known]
    simp only [spelled, said]
    rfl

section Members

variable {struct : String} {object : List (String × Value)} {m : Member} {rest : List Member}
  {v : Value}

theorem encodeMembers_of_missing (missing : object.lookup m.name = none) :
    s.encodeMembers struct object (m :: rest) = .error (.missingMember struct m.name) := by
  rw [encodeMembers]
  split
  · rfl
  · next v found => rw [missing] at found; contradiction

theorem encodeMembers_of_found (found : object.lookup m.name = some v) :
    s.encodeMembers struct object (m :: rest) = do
      let word ← s.encodeValue m.kind v
      let words ← s.encodeMembers struct object rest
      return word.bytes ++ words := by
  rw [encodeMembers]
  split
  · next missing => rw [missing] at found; contradiction
  · next v' found' =>
    obtain rfl : v = v' := Option.some.inj (found.symm.trans found')
    rfl

theorem memberMeanings?_of_missing (missing : object.lookup m.name = none) :
    s.memberMeanings? object (m :: rest) = none := by
  rw [memberMeanings?]
  split
  · rfl
  · next v found => rw [missing] at found; contradiction

theorem memberMeanings?_of_found (found : object.lookup m.name = some v) :
    s.memberMeanings? object (m :: rest) = do
      let first ← s.meaning? m.kind v
      let others ← s.memberMeanings? object rest
      return (m.name, first) :: others := by
  rw [memberMeanings?]
  split
  · next missing => rw [missing] at found; contradiction
  · next v' found' =>
    obtain rfl : v = v' := Option.some.inj (found.symm.trans found')
    rfl

theorem memberMeanings?_cons_eq_some_iff {members : List (String × Meaning)} :
    s.memberMeanings? object (m :: rest) = some members ↔
      ∃ v first others, object.lookup m.name = some v ∧ s.meaning? m.kind v = some first ∧
        s.memberMeanings? object rest = some others ∧ members = (m.name, first) :: others := by
  constructor
  · intro h
    cases found : object.lookup m.name with
    | none =>
      rw [memberMeanings?_of_missing found] at h
      contradiction
    | some v =>
      rw [memberMeanings?_of_found found] at h
      obtain ⟨first, said, h⟩ := Option.bind_eq_some_iff.1 h
      obtain ⟨others, more, h⟩ := Option.bind_eq_some_iff.1 h
      exact ⟨v, first, others, rfl, said, more, (Option.some.inj h).symm⟩
  · rintro ⟨v, first, others, found, said, more, rfl⟩
    rw [memberMeanings?_of_found found, said, more]
    rfl

end Members

theorem word_eq_digest_encoding {struct : String} {v : Value} {m : Meaning}
    (h : s.structMeaning? struct v = some m) : m.word = Keccak.digest m.encoding := by
  obtain ⟨_, _, type, members, _, _, _, _, rfl⟩ := structMeaning?_eq_some_iff.1 h
  rw [Meaning.word, Meaning.encoding]

theorem toOption_typeHash (struct : String) :
    (s.typeHash struct).toOption = (s.typeText? struct).map Keccak.digestText := by
  unfold typeHash
  cases s.typeText? struct with
  | none => rfl
  | some t => rfl

mutual

/-- The word of a value is that of what it says. -/
theorem toOption_encodeValue (s : Schema) (kind : String) (v : Value) :
    (s.encodeValue kind v).toOption = (s.meaning? kind v).map Meaning.word := by
  rw [encodeValue, meaning?]
  split
  · rfl
  · split
    · rw [Result.toOption_bind, toOption_encodeStruct s kind v, Option.bind_map, Option.map_eq_bind]
      refine Option.bind_congr fun m h => ?_
      rw [Function.comp_apply, Function.comp_apply, word_eq_digest_encoding h, Result.toOption_pure]
    · cases named : Kind.ofName? kind with
      | none => rfl
      | some k => exact Kind.toOption_encode kind v (Kind.fits_of_ofName? named)
termination_by (sizeOf v, 1, 0)

theorem toOption_encodeStruct (s : Schema) (struct : String) (v : Value) :
    (s.encodeStruct struct v).toOption = (s.structMeaning? struct v).map Meaning.encoding := by
  rw [encodeStruct, structMeaning?]
  cases s.members? struct with
  | none => rfl
  | some ms =>
    cases v with
    | record object =>
      simp only [Result.toOption_bind, toOption_typeHash, toOption_encodeMembers s struct object ms]
      cases s.typeText? struct with
      | none => rfl
      | some type =>
        cases s.memberMeanings? object ms with
        | none => rfl
        | some members => rfl
    | null | bool b | number n | text t | list items => rfl
termination_by (sizeOf v, 0, 0)

theorem toOption_encodeMembers (s : Schema) (struct : String) (object : List (String × Value))
    (ms : List Member) :
    (s.encodeMembers struct object ms).toOption =
      (s.memberMeanings? object ms).map Meaning.words := by
  cases ms with
  | nil => rw [encodeMembers, memberMeanings?]; rfl
  | cons m rest =>
    cases found : object.lookup m.name with
    | none =>
      rw [encodeMembers_of_missing found, memberMeanings?_of_missing found]
      rfl
    | some v =>
      rw [encodeMembers_of_found found, memberMeanings?_of_found found]
      simp only [Result.toOption_bind, toOption_encodeValue s m.kind v,
        toOption_encodeMembers s struct object rest]
      cases s.meaning? m.kind v with
      | none => rfl
      | some first =>
        cases s.memberMeanings? object rest with
        | none => rfl
        | some others => rfl
termination_by (sizeOf object, 2, ms.length)
decreasing_by
  · exact Prod.Lex.left _ _ (sizeOf_lookup_lt (by assumption))
  · exact Prod.Lex.right _ (Prod.Lex.right _ (Nat.lt_succ_self _))

end

end Schema

end TypedData

end VenueSigner
