import VenueSigner.Config.Source
import VenueSigner.Proofs.DigitCount
import VenueSigner.Proofs.NumeralText
/-!
Configurations from variables and from files. Variables make a configuration exactly if each of them
is missing where it may be and well formed where it is not, and the configuration says what they do.
A file makes the same one as variables that have its values.
-/

namespace VenueSigner

theorem Hex.not_isBlank_of_writes {s : String} {ds : List (Fin 16)} (h : Hex.Writes s ds) :
    ∀ c ∈ s.toList, Blank.isBlank c = false := by
  obtain ⟨mark, known, cs, chars, spelled⟩ := h
  have marks : ∀ mark ∈ Hex.marks, ∀ c ∈ mark, Blank.isBlank c = false := by
    simp [Hex.marks, Blank.isBlank]
  rw [chars]
  intro c member
  cases List.mem_append.1 member with
  | inl inMark => exact marks mark known c inMark
  | inr inDigits => exact Hex.not_isBlank_of_spelled spelled c inDigits

theorem Address.trim_ne_empty {s : String} {a : Address} (h : Address.parse s = .ok a) :
    Blank.trim s ≠ "" := by
  cases Address.parse_counts s with
  | inr refused =>
    obtain ⟨⟨e, failed, _⟩, _⟩ := refused
    rw [h] at failed
    cases failed
  | inl denoted =>
    obtain ⟨_, _, ds, writes, count, _⟩ := denoted
    rw [Blank.trim, Blank.trimChars_of_forall (Hex.not_isBlank_of_writes writes),
      String.ofList_toList]
    rintro rfl
    obtain ⟨mark, _, cs, chars, spelled⟩ := writes
    obtain ⟨-, rfl⟩ := List.append_eq_nil_iff.1 chars.symm
    rw [← spelled.length_eq] at count
    exact absurd count (by decide)

def ConfigDraft.valueOf? (d : ConfigDraft) : String → Option String
  | "CLOB_PRIVATE_KEY" => d.privateKey
  | "CLOB_CHAIN_ID" => d.chainId.map fun n => Digits.text n.val
  | "CLOB_SIGNATURE_TYPE" => d.signatureType.map fun n => Digits.text n.val
  | "CLOB_FUNDER" => d.funder
  | "POLY_API_KEY" => d.apiKey
  | "POLY_API_SECRET" => d.apiSecret
  | "POLY_API_PASSPHRASE" => d.apiPassphrase
  | _ => none

namespace Config

/-- The text is a numeral of the number, with a plus sign in front and blanks at its ends or without
these. -/
def Denotes (s : String) (n : Nat) : Prop :=
  ∃ sign ds, sign ∈ [[], ['+']] ∧ ds ≠ [] ∧
    (Blank.trim s).toList = sign ++ Digits.toChars ds ∧ Positional.value ds = n

theorem exists_elim_iff {α β : Type} {t : Option α} {P : β → Prop} {Q : α → β → Prop}
    (usual : ∃ b, P b) : (∃ b, t.elim (P b) fun a => Q a b) ↔ ∀ a, t = some a → ∃ b, Q a b := by
  cases t with
  | none => simpa using usual
  | some a => simp

theorem numberOf?_eq_some_iff {bits : Nat} {s : String} {n : Uint bits} :
    numberOf? bits s = some n ↔ Denotes s n.val := by
  rw [numberOf?, Denotes, ← Digits.signedNatural?_eq_some_iff]
  cases Digits.signedNatural? (Blank.trim s).toList with
  | none => simp
  | some k => rw [Option.bind_some, Uint.ofNat?_eq_some_iff, Option.some.injEq]

theorem denotes_text (n : Nat) : Denotes (Digits.text n) n := by
  refine ⟨[], Digits.ofNat n, by simp, Digits.ofNat_ne_nil n, ?_, Digits.value_ofNat n⟩
  rw [Digits.text, Digits.trim_digits, String.toList_ofList, List.nil_append]

theorem chainIdOf_eq_ok_iff {t : Option String} {n : Uint64} :
    chainIdOf t = .ok n ↔ t.elim (n.val = 137) fun s => Denotes s n.val := by
  cases t with
  | none =>
    constructor
    · intro h
      obtain rfl := Except.ok.inj h
      rfl
    · intro h
      rw [chainIdOf, Uint.eq_of_val_eq (u := n) (v := Contracts.polygon) h]
  | some s =>
    rw [chainIdOf, Option.elim_some, ← numberOf?_eq_some_iff]
    cases numberOf? 64 s <;> simp

theorem exists_chainIdOf_iff {t : Option String} :
    (∃ n, chainIdOf t = .ok n) ↔ ∀ s, t = some s → ∃ n < 2 ^ 64, Denotes s n := by
  have fits (s : String) : (∃ n : Uint64, Denotes s n.val) ↔ ∃ n < 2 ^ 64, Denotes s n := by
    constructor
    · rintro ⟨n, denotes⟩
      exact ⟨n.val, n.val_lt, denotes⟩
    · rintro ⟨n, room, denotes⟩
      exact ⟨⟨n, room⟩, denotes⟩
  simp only [chainIdOf_eq_ok_iff]
  rw [exists_elim_iff]
  · exact forall₂_congr fun s _ => fits s
  · exact ⟨Contracts.polygon, rfl⟩

theorem signatureKindOf_eq_ok_iff {n : Nat} {k : SignatureKind} :
    signatureKindOf n = .ok k ↔ k.number = n := by
  rw [← SignatureKind.ofNumber?_eq_some_iff, signatureKindOf]
  cases SignatureKind.ofNumber? n <;> simp

theorem signatureKindOfText_eq_ok_iff {t : Option String} {k : SignatureKind} :
    signatureKindOfText t = .ok k ↔
      t.elim (k = .externallyOwned) fun s => Denotes s k.number := by
  cases t with
  | none => simp [signatureKindOfText, eq_comm]
  | some s =>
    rw [signatureKindOfText, Option.elim_some]
    constructor
    · intro h
      cases read : numberOf? 8 s with
      | none =>
        rw [read] at h
        contradiction
      | some n =>
        rw [read] at h
        rw [signatureKindOf_eq_ok_iff.1 h]
        exact numberOf?_eq_some_iff.1 read
    · intro denotes
      have room : k.number < 2 ^ 8 := by cases k <;> decide
      rw [numberOf?_eq_some_iff (n := ⟨k.number, room⟩).2 denotes]
      exact signatureKindOf_eq_ok_iff.2 rfl

theorem exists_signatureKindOfText_iff {t : Option String} :
    (∃ k, signatureKindOfText t = .ok k) ↔ ∀ s, t = some s → ∃ n < 3, Denotes s n := by
  have numbered (s : String) : (∃ k : SignatureKind, Denotes s k.number) ↔
      ∃ n < 3, Denotes s n := by
    constructor
    · rintro ⟨k, denotes⟩
      exact ⟨k.number, by cases k <;> decide, denotes⟩
    · rintro ⟨n, few, denotes⟩
      have kinds : ∀ n < 3, ∃ k ∈ SignatureKind.all, k.number = n := by decide
      obtain ⟨k, _, rfl⟩ := kinds n few
      exact ⟨k, denotes⟩
  simp only [signatureKindOfText_eq_ok_iff]
  rw [exists_elim_iff]
  · exact forall₂_congr fun s _ => numbered s
  · exact ⟨_, rfl⟩

theorem funderOf_eq_ok_iff {t : Option String} {f : Option Address} :
    funderOf t = .ok f ↔ t.elim (f = none) fun s =>
      (Blank.trim s = "" ∧ f = none) ∨ ∃ a, Address.parse s = .ok a ∧ f = some a := by
  cases t with
  | none =>
    rw [funderOf, Option.elim_none, Except.ok.injEq, eq_comm]
  | some s =>
    rw [funderOf, Option.elim_some]
    by_cases blank : Blank.trim s = ""
    · rw [if_pos (by rw [blank]; rfl)]
      constructor
      · intro h
        exact .inl ⟨blank, (Except.ok.inj h).symm⟩
      · rintro (⟨_, rfl⟩ | ⟨a, read, _⟩)
        · rfl
        · exact absurd blank (Address.trim_ne_empty read)
    · rw [if_neg (by simpa using blank)]
      cases Address.parse s with
      | error e => simp [Except.map, Except.mapError, blank]
      | ok a => simp [Except.map, Except.mapError, blank, eq_comm]

theorem exists_funderOf_iff {t : Option String} : (∃ f, funderOf t = .ok f) ↔
    ∀ s, t = some s → Blank.trim s = "" ∨ ∃ a, Address.parse s = .ok a := by
  have named (s : String) : (∃ f : Option Address, (Blank.trim s = "" ∧ f = none) ∨
      ∃ a, Address.parse s = .ok a ∧ f = some a) ↔
        Blank.trim s = "" ∨ ∃ a, Address.parse s = .ok a := by
    constructor
    · rintro ⟨f, ⟨blank, _⟩ | ⟨a, read, _⟩⟩
      · exact .inl blank
      · exact .inr ⟨a, read⟩
    · rintro (blank | ⟨a, read⟩)
      · exact ⟨none, .inl ⟨blank, rfl⟩⟩
      · exact ⟨some a, .inr ⟨a, read, rfl⟩⟩
  simp only [funderOf_eq_ok_iff]
  rw [exists_elim_iff]
  · exact forall₂_congr fun s _ => named s
  · exact ⟨_, rfl⟩

theorem credentialsOf_eq_ok_iff {key secret passphrase : Option String} {c : Option Credentials} :
    credentialsOf key secret passphrase = .ok c ↔
      c.map (·.key) = key ∧ c.map (·.secret) = secret ∧ c.map (·.passphrase) = passphrase := by
  constructor
  · intro h
    unfold credentialsOf at h
    split at h
    · obtain rfl := Except.ok.inj h
      exact ⟨rfl, rfl, rfl⟩
    · obtain rfl := Except.ok.inj h
      exact ⟨rfl, rfl, rfl⟩
    · contradiction
  · rintro ⟨rfl, rfl, rfl⟩
    cases c <;> rfl

theorem exists_credentialsOf_iff {key secret passphrase : Option String} :
    (∃ c, credentialsOf key secret passphrase = .ok c) ↔
      key.isSome = secret.isSome ∧ secret.isSome = passphrase.isSome := by
  constructor
  · rintro ⟨c, made⟩
    obtain ⟨rfl, rfl, rfl⟩ := credentialsOf_eq_ok_iff.1 made
    simp only [Option.isSome_map, and_self]
  · rintro ⟨first, second⟩
    cases key with
    | none =>
      obtain rfl : secret = none := by simpa using first
      obtain rfl : passphrase = none := by simpa using second
      exact ⟨none, rfl⟩
    | some key =>
      obtain ⟨secret, rfl⟩ := Option.isSome_iff_exists.1 first.symm
      obtain ⟨passphrase, rfl⟩ := Option.isSome_iff_exists.1 second.symm
      exact ⟨some ⟨key, secret, passphrase⟩, rfl⟩

/-- Each variable is missing where it may be, and well formed where it is not. -/
structure Accepts (lookup : String → Option String) : Prop where
  privateKey : ∃ s, lookup "CLOB_PRIVATE_KEY" = some s
  chainId : ∀ s, lookup "CLOB_CHAIN_ID" = some s → ∃ n < 2 ^ 64, Denotes s n
  signatureKind : ∀ s, lookup "CLOB_SIGNATURE_TYPE" = some s → ∃ n < 3, Denotes s n
  funder : ∀ s, lookup "CLOB_FUNDER" = some s →
    Blank.trim s = "" ∨ ∃ a, Address.parse s = .ok a
  credentials : (lookup "POLY_API_KEY").isSome = (lookup "POLY_API_SECRET").isSome ∧
    (lookup "POLY_API_SECRET").isSome = (lookup "POLY_API_PASSPHRASE").isSome

/-- The configuration is what the variables say, and what is usual where they say nothing. -/
structure Stated (lookup : String → Option String) (c : Config) : Prop where
  privateKey : lookup "CLOB_PRIVATE_KEY" = some c.privateKey
  chainId : (lookup "CLOB_CHAIN_ID").elim (c.chainId.val = 137) fun s => Denotes s c.chainId.val
  signatureKind : (lookup "CLOB_SIGNATURE_TYPE").elim (c.signatureKind = .externallyOwned) fun s =>
    Denotes s c.signatureKind.number
  funder : (lookup "CLOB_FUNDER").elim (c.funder = none) fun s =>
    (Blank.trim s = "" ∧ c.funder = none) ∨ ∃ a, Address.parse s = .ok a ∧ c.funder = some a
  credentials : c.credentials.map (·.key) = lookup "POLY_API_KEY" ∧
    c.credentials.map (·.secret) = lookup "POLY_API_SECRET" ∧
    c.credentials.map (·.passphrase) = lookup "POLY_API_PASSPHRASE"

variable {lookup : String → Option String} {c : Config}

theorem ofLookup_eq_ok_iff : ofLookup lookup = .ok c ↔ Stated lookup c := by
  constructor
  · intro h
    unfold ofLookup at h
    cases key : lookup "CLOB_PRIVATE_KEY" with
    | none =>
      rw [key] at h
      contradiction
    | some privateKey =>
      rw [key] at h
      obtain ⟨chainId, chain, h⟩ := Result.bind_eq_ok.1 h
      obtain ⟨signatureKind, kind, h⟩ := Result.bind_eq_ok.1 h
      obtain ⟨funder, account, h⟩ := Result.bind_eq_ok.1 h
      obtain ⟨credentials, parts, h⟩ := Result.bind_eq_ok.1 h
      obtain rfl := Except.ok.inj h
      exact ⟨key, chainIdOf_eq_ok_iff.1 chain, signatureKindOfText_eq_ok_iff.1 kind,
        funderOf_eq_ok_iff.1 account, credentialsOf_eq_ok_iff.1 parts⟩
  · intro stated
    rw [ofLookup, stated.privateKey]
    dsimp only
    rw [chainIdOf_eq_ok_iff.2 stated.chainId, signatureKindOfText_eq_ok_iff.2 stated.signatureKind,
      funderOf_eq_ok_iff.2 stated.funder, credentialsOf_eq_ok_iff.2 stated.credentials]
    rfl

theorem exists_ofLookup_iff : (∃ c, ofLookup lookup = .ok c) ↔ Accepts lookup := by
  constructor
  · rintro ⟨c, made⟩
    have stated := ofLookup_eq_ok_iff.1 made
    exact ⟨⟨_, stated.privateKey⟩, exists_chainIdOf_iff.1 ⟨_, chainIdOf_eq_ok_iff.2 stated.chainId⟩,
      exists_signatureKindOfText_iff.1 ⟨_, signatureKindOfText_eq_ok_iff.2 stated.signatureKind⟩,
      exists_funderOf_iff.1 ⟨_, funderOf_eq_ok_iff.2 stated.funder⟩,
      exists_credentialsOf_iff.1 ⟨_, credentialsOf_eq_ok_iff.2 stated.credentials⟩⟩
  · intro accepts
    obtain ⟨privateKey, key⟩ := accepts.privateKey
    obtain ⟨chainId, chain⟩ := exists_chainIdOf_iff.2 accepts.chainId
    obtain ⟨signatureKind, kind⟩ := exists_signatureKindOfText_iff.2 accepts.signatureKind
    obtain ⟨funder, account⟩ := exists_funderOf_iff.2 accepts.funder
    obtain ⟨credentials, parts⟩ := exists_credentialsOf_iff.2 accepts.credentials
    exact ⟨⟨chainId, privateKey, signatureKind, funder, credentials⟩, ofLookup_eq_ok_iff.2
      ⟨key, chainIdOf_eq_ok_iff.1 chain, signatureKindOfText_eq_ok_iff.1 kind,
        funderOf_eq_ok_iff.1 account, credentialsOf_eq_ok_iff.1 parts⟩⟩

theorem Stated.authLevel_eq_iff (stated : Stated lookup c) : c.authLevel = .l2 ↔
    (lookup "POLY_API_KEY").isSome ∧ (lookup "POLY_API_SECRET").isSome ∧
      (lookup "POLY_API_PASSPHRASE").isSome := by
  obtain ⟨key, secret, passphrase⟩ := stated.credentials
  rw [← key, ← secret, ← passphrase]
  simp only [Option.isSome_map, and_self, authLevel]
  cases c.credentials <;> simp

theorem chainIdOf_text (n : Option Uint64) :
    chainIdOf (n.map fun n => Digits.text n.val) = .ok (n.getD Contracts.polygon) := by
  cases n with
  | none => rfl
  | some n => exact chainIdOf_eq_ok_iff.2 (denotes_text n.val)

theorem signatureKindOfText_text (n : Option (Uint 8)) :
    signatureKindOfText (n.map fun n => Digits.text n.val) =
      signatureKindOf ((n.map (·.val)).getD 0) := by
  cases n with
  | none => rfl
  | some n =>
    rw [Option.map_some, signatureKindOfText, numberOf?_eq_some_iff.2 (denotes_text n.val)]
    rfl

theorem toOption_ofLookup_valueOf? (d : ConfigDraft) :
    (ofLookup d.valueOf?).toOption = (ofDraft d).toOption := by
  unfold ofLookup ofDraft
  simp only [ConfigDraft.valueOf?]
  cases d.privateKey with
  | none => rfl
  | some privateKey =>
    rw [chainIdOf_text, signatureKindOfText_text]
    rfl

theorem ofFile_of_draftOfFile {extension : String} {content : Option String} {env : Environment}
    {d : ConfigDraft} (h : draftOfFile extension content env = .ok d) :
    ofFile extension content env = ofDraft d := by
  rw [ofFile, h]
  rfl

/-- Variables make a configuration exactly if they are acceptable. It is the one that they state,
with access to requests if all parts of the credentials are given. A file that makes a draft makes
the configuration that variables with the values of this draft make, or none if they make none. -/
theorem loaders_agree :
    (∀ lookup : String → Option String,
      ((∃ c, ofLookup lookup = .ok c) ↔ Accepts lookup) ∧
      (∀ c, ofLookup lookup = .ok c ↔ Stated lookup c) ∧
      ∀ c, ofLookup lookup = .ok c → (c.authLevel = .l2 ↔
        (lookup "POLY_API_KEY").isSome ∧ (lookup "POLY_API_SECRET").isSome ∧
          (lookup "POLY_API_PASSPHRASE").isSome)) ∧
    ∀ (extension : String) (content : Option String) (env : Environment) (d : ConfigDraft),
      draftOfFile extension content env = .ok d →
        (ofFile extension content env).toOption = (ofLookup d.valueOf?).toOption := by
  refine ⟨fun lookup => ⟨exists_ofLookup_iff, fun c => ofLookup_eq_ok_iff, fun c made => ?_⟩,
    fun extension content env d read => ?_⟩
  · exact (ofLookup_eq_ok_iff.1 made).authLevel_eq_iff
  · rw [ofFile_of_draftOfFile read, toOption_ofLookup_valueOf?]

theorem loaders_agree_replacedNumber :
    let file := "private_key = \"k\"\nchain_id = 80_002\nsignature_type = 1\n"
    let env := [("CLOB_SIGNATURE_TYPE", "2")]
    ∃ d, draftOfFile "toml" (some file) env = .ok d ∧
      d.valueOf? "CLOB_CHAIN_ID" = some "80002" ∧ d.valueOf? "CLOB_SIGNATURE_TYPE" = some "2" ∧
      (ofFile "toml" (some file) env).toOption = (ofLookup d.valueOf?).toOption := by
  intro file env
  have read : (draftOfFile "toml" (some file) env).toOption =
      some ⟨some "k", some ⟨80002, by decide⟩, some ⟨2, by decide⟩, none, none, none, none⟩ := by
    decide +kernel
  have made := Result.eq_ok_of_toOption read
  exact ⟨_, made, by decide +kernel, by decide +kernel,
    loaders_agree.2 "toml" (some file) env _ made⟩

end Config

end VenueSigner
