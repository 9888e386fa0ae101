import VenueSigner.Proofs.HexText
import VenueSigner.Proofs.WalletHeaders
/-!
Addresses as texts. An address is read from its forty digits, each in either case, behind a mark or
none; the capitals that it is written with are determined by its digits alone. So all spellings of
an address have one checksum, and headers that write it in two ways name one sender.
-/

namespace VenueSigner

def Bytes.nibbleAt (b : Bytes) (i : Nat) : Nat :=
  if i % 2 = 0 then (b.getD (i / 2) 0).toNat / 16 else (b.getD (i / 2) 0).toNat % 16

theorem Bytes.nibbleAt_cons (x : UInt8) (b : Bytes) (i : Nat) :
    nibbleAt (x :: b) (i + 2) = nibbleAt b i := by
  have place : (i + 2) / 2 = i / 2 + 1 := by omega
  simp only [nibbleAt, place, Nat.add_mod_right, List.getD_cons_succ]

theorem Hex.getElem?_digits {b : Bytes} {i : Nat} (h : i < 2 * b.length) :
    ∃ d, (digits b)[i]? = some d ∧ d.val = b.nibbleAt i := by
  induction b generalizing i with
  | nil => contradiction
  | cons x b ih =>
    have small : x.toNat < 256 := x.toNat_lt
    match i with
    | 0 => exact ⟨_, rfl, Nat.mod_eq_of_lt (by omega)⟩
    | 1 => exact ⟨_, rfl, rfl⟩
    | i + 2 =>
      obtain ⟨d, found, nibble⟩ := ih (i := i) (by rw [List.length_cons] at h; omega)
      exact ⟨d, found, nibble.trans (Bytes.nibbleAt_cons x b i).symm⟩

namespace Address

theorem nibbles_eq (b : Bytes) : nibbles b = (Hex.digits b).map Fin.val := by
  induction b with
  | nil => rfl
  | cons x b ih =>
    have small : x.toNat < 256 := x.toNat_lt
    have high : (Fin.ofNat 16 (x.toNat / 16)).val = x.toNat / 16 := Nat.mod_eq_of_lt (by omega)
    rw [Hex.digits_cons, List.map_cons, List.map_cons, ← ih, high]
    rfl

/-- The characters are the digits of the address. A letter among them is a capital exactly if the
half byte at its place in the digest of the digits in lowercase is at least eight. -/
structure Checksummed (a : Address) (cs : List Char) : Prop where
  length : cs.length = 40
  digit : ∀ i < 40, ∃ c d, cs[i]? = some c ∧ Hex.Spells c d ∧ d.val = a.bytes.nibbleAt i ∧
    (c.isUpper ↔ c.isAlpha ∧ 8 ≤ (Keccak.digestText (Hex.encode a.bytes)).bytes.nibbleAt i)

theorem isUpper_checkedDigit (d : Fin 16) (nibble : Nat) :
    (checkedDigit (Hex.digitChar d) nibble).isUpper ↔
      (checkedDigit (Hex.digitChar d) nibble).isAlpha ∧ 8 ≤ nibble := by
  have upper : ∀ d : Fin 16,
      (Hex.digitChar d).toUpper.isUpper = (Hex.digitChar d).toUpper.isAlpha := by
    decide
  have lower : ∀ d : Fin 16, (Hex.digitChar d).isUpper = false := by decide
  unfold checkedDigit
  split
  · next high => simp [upper, high]
  · next low => simp [lower, low]

def checksumChars (a : Address) : List Char :=
  List.zipWith checkedDigit (Hex.encodeChars a.bytes)
    (nibbles (Keccak.digestText (Hex.encode a.bytes)).bytes)

theorem toList_checksum (a : Address) : a.checksum.toList = '0' :: 'x' :: a.checksumChars :=
  String.toList_ofList

theorem spelled_checksumChars (a : Address) :
    List.Forall₂ Hex.Spells a.checksumChars (Hex.digits a.bytes) :=
  Hex.spellsAll_iff.1 (spellsAll_checksum a)

theorem checksummed_checksum (a : Address) :
    ∃ cs, a.checksum.toList = '0' :: 'x' :: cs ∧ Checksummed a cs := by
  have digest := (Keccak.digestText (Hex.encode a.bytes)).length_eq
  refine ⟨a.checksumChars, toList_checksum a, ?_, ?_⟩
  · rw [(spelled_checksumChars a).length_eq, Hex.length_digits, a.length_eq]
  · intro i place
    obtain ⟨d, found, half⟩ := Hex.getElem?_digits (b := a.bytes) (i := i)
      (by rw [a.length_eq]; exact place)
    obtain ⟨e, other, nibble⟩ :=
      Hex.getElem?_digits (b := (Keccak.digestText (Hex.encode a.bytes)).bytes) (i := i)
        (by rw [digest]; omega)
    refine ⟨checkedDigit (Hex.digitChar d) e.val, d, ?_, spells_checkedDigit d e.val, half, ?_⟩
    · simp only [checksumChars, Hex.encodeChars_eq, nibbles_eq, List.getElem?_zipWith,
        List.getElem?_map, found, other, Option.map_some]
    · rw [← nibble]
      exact isUpper_checkedDigit d e.val

/-- The text is the forty digits of the address, each in either case, behind one mark or none. -/
def Spelling (s : String) (a : Address) : Prop :=
  Hex.Writes s (Hex.digits a.bytes)

theorem Spelling.parse {s : String} {a : Address} (h : Spelling s a) : parse s = .ok a := by
  rw [Address.parse, Hex.decode_of_writes h]
  simp only [ofBytes, FixedBytes.ofBytes?_bytes]

theorem Spelling.dropMark {s : String} {a : Address} (h : Spelling s a) :
    Spelling (Hex.dropMark s) a :=
  ⟨[], by simp [Hex.marks], _, rfl, Hex.writes_iff.1 h⟩

theorem spelling_lowercase (a : Address) : Spelling a.lowercase a :=
  Hex.writes_encodePrefixed a.bytes

theorem spelling_checksum (a : Address) : Spelling a.checksum a :=
  ⟨['0', 'x'], by simp [Hex.marks], a.checksumChars, toList_checksum a, spelled_checksumChars a⟩

theorem withChecksum_of_parse {s : String} {a : Address} (h : Address.parse s = .ok a) :
    withChecksum s = .ok a.checksum := by
  rw [withChecksum, h]
  rfl

theorem withChecksum_twice (s : String) : (withChecksum s >>= withChecksum) = withChecksum s := by
  cases parsed : Address.parse s with
  | error e =>
    have failed : withChecksum s = .error e := by
      rw [withChecksum, parsed]
      rfl
    rw [failed]
    rfl
  | ok a =>
    have once := withChecksum_of_parse parsed
    have twice := withChecksum_of_parse a.parse_checksum
    exact (Result.bind_eq_ok.2 ⟨_, once, twice⟩).trans once.symm

end Address

def Headers.address? (h : Headers) : Option Address :=
  (h.lookup "POLY_ADDRESS").bind fun t => (Address.parse t).toOption

theorem Headers.address?_cons (t : String) (rest : Headers) :
    Headers.address? (("POLY_ADDRESS", t) :: rest) = (Address.parse t).toOption := by
  rw [Headers.address?, List.lookup_cons_self, Option.bind_some]

namespace Signer

variable (s : Signer)

theorem address?_headersWith (timestamp nonce : Uint64) (signature : Signature) :
    (s.headersWith timestamp nonce signature).address? = some s.address := by
  rw [headersWith, Headers.address?_cons, s.address.parse_checksum]
  rfl

theorem walletHeaders_address (timestamp : Uint64) (nonce : Option Uint64) :
    (∃ h, s.walletHeaders timestamp nonce = .ok h ∧ h.address? = some s.address) ∨
      s.walletHeaders timestamp nonce = .error .signing := by
  rw [walletHeaders_eq]
  cases signed : s.signWord (Attestation.digest s.chainId s.address timestamp
      (nonce.getD (Uint.zero 64))) with
  | ok signature => exact .inl ⟨_, rfl, s.address?_headersWith timestamp _ signature⟩
  | error e =>
    rw [(error_of_signWord signed).1]
    exact .inr rfl

theorem requestHeaders_address (c : Credentials) (timestamp : Uint64) (method path : String)
    (body : Option String) :
    (∃ h, s.requestHeaders c timestamp method path body = .ok h ∧ h.address? = some s.address) ∨
      ∃ e, Credentials.decodeSecret c.secret = .error e ∧
        s.requestHeaders c timestamp method path body = .error e := by
  rw [requestHeaders, Credentials.requestDigest]
  cases Credentials.decodeSecret c.secret with
  | ok key =>
    refine .inl ⟨_, rfl, ?_⟩
    rw [Headers.address?_cons, s.address.parse_lowercase]
    rfl
  | error e => exact .inr ⟨e, rfl, rfl⟩

end Signer

/-- Addresses as texts. An address is read from every spelling of it, those it is written in among
them, and all spellings have one checksum, which is its own. In the checksum the capitals are where
the digest of the lowercase digits says. Headers that a wallet makes, for itself or for a request,
name the same address. -/
theorem Address.spellings_agree :
    (∀ a : Address, (∀ s, Spelling s a → parse s = .ok a ∧ withChecksum s = .ok a.checksum) ∧
      (Spelling a.checksum a ∧ Spelling (Hex.dropMark a.checksum) a) ∧
      (Spelling a.lowercase a ∧ Spelling (Hex.dropMark a.lowercase) a) ∧
      ∃ cs, a.checksum.toList = '0' :: 'x' :: cs ∧ Checksummed a cs) ∧
    (∀ s, (withChecksum s >>= withChecksum) = withChecksum s) ∧
    ∀ (s : Signer) (c : Credentials) (timestamp : Uint64) (nonce : Option Uint64)
      (method path : String) (body : Option String),
      ((∃ h, s.walletHeaders timestamp nonce = .ok h ∧ h.address? = some s.address) ∨
        s.walletHeaders timestamp nonce = .error .signing) ∧
      ((∃ h, s.requestHeaders c timestamp method path body = .ok h ∧
          h.address? = some s.address) ∨
        ∃ e, Credentials.decodeSecret c.secret = .error e ∧
          s.requestHeaders c timestamp method path body = .error e) := by
  refine ⟨fun a => ⟨fun s spelled => ?_, ?_, ?_, checksummed_checksum a⟩, withChecksum_twice,
    fun s c timestamp nonce method path body => ⟨s.walletHeaders_address timestamp nonce,
      s.requestHeaders_address c timestamp method path body⟩⟩
  · exact ⟨spelled.parse, withChecksum_of_parse spelled.parse⟩
  · exact ⟨spelling_checksum a, (spelling_checksum a).dropMark⟩
  · exact ⟨spelling_lowercase a, (spelling_lowercase a).dropMark⟩

theorem Address.spellings_agree_capitals :
    Spelling "5AAEB6053F3E94C9B9A09F33669435E7EF1BEAED"
        (.ofNat 20 0x5aaeb6053f3e94c9b9a09f33669435e7ef1beaed) ∧
      parse "5AAEB6053F3E94C9B9A09F33669435E7EF1BEAED" =
        .ok (.ofNat 20 0x5aaeb6053f3e94c9b9a09f33669435e7ef1beaed) := by
  have spelled : Spelling "5AAEB6053F3E94C9B9A09F33669435E7EF1BEAED"
      (.ofNat 20 0x5aaeb6053f3e94c9b9a09f33669435e7ef1beaed) :=
    ⟨[], by decide, "5AAEB6053F3E94C9B9A09F33669435E7EF1BEAED".toList, rfl, by decide⟩
  exact ⟨spelled, ((spellings_agree.1 _).1 _ spelled).1⟩

end VenueSigner
