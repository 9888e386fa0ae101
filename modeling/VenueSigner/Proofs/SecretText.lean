import Mathlib.Data.List.Forall2
import VenueSigner.Auth.Credentials
import VenueSigner.Proofs.Base64Text
import VenueSigner.Proofs.HexText
/-!
Secrets as texts. A secret is read from its canonical base64 text and from every text that differs
in the symbols of the other alphabet and in how many fillers it has; nothing else is read, and no
text is that of two secrets.
-/

namespace VenueSigner.Credentials

open Base64 (filler fillers sextets symbol)

/-- The character may stand for a symbol: it is the symbol, or that of the other alphabet in its
place. -/
def StandsFor (c symbol : Char) : Prop :=
  c = symbol ∨ c = '-' ∧ symbol = '+' ∨ c = '_' ∧ symbol = '/'

instance (c symbol : Char) : Decidable (StandsFor c symbol) :=
  inferInstanceAs (Decidable (_ ∨ _))

def canonical (b : Bytes) : List Char :=
  (Base64.encodeText Base64.standard b).toList

/-- The characters spell bytes if they become the canonical text when symbols of the other alphabet
are replaced and fillers that are missing are put at the end. -/
def Spells (cs : List Char) (b : Bytes) : Prop :=
  ∃ missing, List.Forall₂ StandsFor (cs ++ List.replicate missing '=') (canonical b)

theorem lt_of_standardSymbol {x : UInt8} (h : (standardSymbol x).toNat < 128) : x.toNat < 128 := by
  unfold standardSymbol at h
  split_ifs at h with dash line
  · rw [dash]
    decide
  · rw [line]
    decide
  · exact h

theorem standardSymbol_of_mem {x : UInt8} {b : Bytes} (h : x ∈ Base64.encode Base64.standard b) :
    standardSymbol x = x := by
  have all : ∀ n < 64, standardSymbol (symbol Base64.standard n) = symbol Base64.standard n := by
    decide
  rw [Base64.encode_eq] at h
  obtain symbols | last := List.mem_append.1 h
  · obtain ⟨d, _, rfl⟩ := List.mem_map.1 symbols
    exact all d.val d.isLt
  · rw [List.eq_of_mem_replicate last]
    rfl

theorem standsFor_iff {c : Char} {x : UInt8} (ascii : x.toNat < 128)
    (fixed : standardSymbol x = x) :
    StandsFor c (Char.ofNat x.toNat) ↔
      c.toNat < 128 ∧ standardSymbol (UInt8.ofNat c.toNat) = x := by
  have code := toNat_char_of_ascii ascii
  constructor
  · rintro (rfl | ⟨rfl, plus⟩ | ⟨rfl, slash⟩)
    · rw [code, UInt8.ofNat_toNat]
      exact ⟨ascii, fixed⟩
    · rw [plus] at code
      exact ⟨by decide, UInt8.toNat_inj.1 code⟩
    · rw [slash] at code
      exact ⟨by decide, UInt8.toNat_inj.1 code⟩
  · rintro ⟨small, rfl⟩
    exact Hex.of_ascii small (p := fun c =>
      StandsFor c (Char.ofNat (standardSymbol (UInt8.ofNat c.toNat)).toNat)) (by decide)

theorem forall_standsFor_iff {cs : List Char} {text : Bytes}
    (plain : ∀ x ∈ text, x.toNat < 128 ∧ standardSymbol x = x) :
    List.Forall₂ StandsFor cs (text.map fun x => Char.ofNat x.toNat) ↔
      (∀ c ∈ cs, c.toNat < 128) ∧
        (cs.map fun c => UInt8.ofNat c.toNat).map standardSymbol = text := by
  rw [List.forall₂_map_right_iff]
  induction text generalizing cs with
  | nil =>
    rw [List.forall₂_nil_right_iff]
    constructor
    · rintro rfl
      simp
    · rintro ⟨_, h⟩
      simpa using h
  | cons x text ih =>
    obtain ⟨⟨ascii, fixed⟩, others⟩ := List.forall_mem_cons.1 plain
    cases cs with
    | nil => simp
    | cons c cs =>
      rw [List.forall₂_cons, standsFor_iff ascii fixed, ih others, List.forall_mem_cons,
        List.map_cons, List.map_cons, List.cons.injEq]
      tauto

def symbols (cs : List Char) : Bytes :=
  (cs.flatMap String.utf8EncodeChar).map standardSymbol

theorem standsFor_canonical_iff {cs : List Char} {b : Bytes} :
    List.Forall₂ StandsFor cs (canonical b) ↔
      symbols cs = Base64.encode Base64.standard b := by
  have plain : ∀ x ∈ Base64.encode Base64.standard b, x.toNat < 128 ∧ standardSymbol x = x :=
    fun x h => ⟨Base64.lt_of_mem_encode Base64.faithful_standard h, standardSymbol_of_mem h⟩
  rw [canonical, Base64.encodeText, String.toList_ofList, forall_standsFor_iff plain]
  constructor
  · rintro ⟨ascii, h⟩
    rwa [symbols, flatMap_utf8EncodeChar ascii]
  · intro h
    have ascii : ∀ c ∈ cs, c.toNat < 128 := by
      refine fun c member => ascii_of_utf8EncodeChar fun x byte => lt_of_standardSymbol ?_
      refine (plain (standardSymbol x) ?_).1
      rw [← h]
      exact List.mem_map_of_mem (List.mem_flatMap_of_mem member byte)
    rw [symbols, flatMap_utf8EncodeChar ascii] at h
    exact ⟨ascii, h⟩

theorem symbols_append_fillers (cs : List Char) (missing : Nat) :
    symbols (cs ++ List.replicate missing '=') = symbols cs ++ List.replicate missing filler := by
  have ascii : ∀ c ∈ List.replicate missing '=', c.toNat < 128 := by
    intro c h
    rw [List.eq_of_mem_replicate h]
    decide
  rw [symbols, List.flatMap_append, List.map_append, flatMap_utf8EncodeChar ascii,
    List.map_replicate, List.map_replicate]
  rfl

theorem append_fillers_iff {text : Bytes} {b : Bytes} :
    (∃ missing, text ++ List.replicate missing filler = Base64.encode Base64.standard b) ↔
      fill text = Base64.encode Base64.standard b := by
  constructor
  · rintro ⟨missing, h⟩
    have count := Base64.count_filler Base64.faithful_standard b
    have length := Base64.length_encode Base64.standard b
    have few : fillers b.length < 3 := Nat.mod_lt _ (by decide)
    rw [← h, List.count_append, List.count_replicate_self] at count
    rw [← h, List.length_append, List.length_replicate] at length
    have lacking : (4 - text.length % 4) % 4 = missing := by omega
    rw [fill, lacking, h]
  · intro h
    exact ⟨_, h⟩

theorem spells_iff {cs : List Char} {b : Bytes} :
    Spells cs b ↔ fill (symbols cs) = Base64.encode Base64.standard b := by
  simp only [Spells, standsFor_canonical_iff, symbols_append_fillers, append_fillers_iff]

theorem eq_of_spells {cs : List Char} {b c : Bytes} (hb : Spells cs b) (hc : Spells cs c) :
    b = c := by
  rw [spells_iff] at hb hc
  exact Base64.encode_injective Base64.faithful_standard (hb.symm.trans hc)

theorem decodeSecret_eq (s : String) : decodeSecret s =
    (Base64.decode Base64.standard (fill (symbols (Blank.trim s).toList))).mapError
      .secretNotBase64 :=
  rfl

/-- A secret is read from what spells it. -/
theorem decodeSecret_eq_ok_iff {s : String} {b : Bytes} :
    decodeSecret s = .ok b ↔ Spells (Blank.trim s).toList b := by
  rw [spells_iff, @eq_comm _ (fill _), ← Base64.decode_eq_ok_iff Base64.faithful_standard,
    decodeSecret_eq]
  cases Base64.decode Base64.standard (fill (symbols (Blank.trim s).toList)) <;>
    simp [Except.mapError]

theorem kind_of_decodeSecret_error {s : String} {e : Error} (h : decodeSecret s = .error e) :
    e.kind = .invalidCredentials := by
  rw [decodeSecret_eq] at h
  cases read : Base64.decode Base64.standard (fill (symbols (Blank.trim s).toList)) with
  | ok b =>
    rw [read] at h
    contradiction
  | error problem =>
    rw [read] at h
    obtain rfl := Except.error.inj h
    rfl

/-- How a secret is read. The canonical text of bytes has their bits, six for each letter of the
standard alphabet, with zeros behind them, and fillers for a multiple of four. What is read are the
texts that spell bytes, blanks at the ends aside: the canonical one and those that have symbols of
the other alphabet in it, or fewer fillers. All of them give the same bytes, none spells two byte
strings, and every other text is refused. -/
theorem spellings_of_secrets :
    (∀ b, ∃ ds, canonical b =
        ds.map (Base64.letter Base64.standard) ++ List.replicate (fillers b.length) '=' ∧
      ds.length = (4 * b.length + 2) / 3 ∧
      Positional.value ds = b.toNat * 4 ^ fillers b.length) ∧
    (∀ s b, decodeSecret s = .ok b ↔ Spells (Blank.trim s).toList b) ∧
    (∀ s, (∃ b, Spells (Blank.trim s).toList b) ∨
      ∃ e, decodeSecret s = .error e ∧ e.kind = .invalidCredentials) ∧
    (∀ s t b, Spells (Blank.trim s).toList b → Spells (Blank.trim t).toList b →
      decodeSecret s = decodeSecret t) ∧
    ∀ cs b c, Spells cs b → Spells cs c → b = c := by
  refine ⟨fun b => ⟨sextets b, Base64.toList_encodeText _ b, Base64.length_sextets b,
    Base64.value_sextets b⟩, fun s b => decodeSecret_eq_ok_iff, fun s => ?_,
    fun s t b hs ht => ?_, fun cs b c => eq_of_spells⟩
  · cases read : decodeSecret s with
    | ok b => exact .inl ⟨b, decodeSecret_eq_ok_iff.1 read⟩
    | error e => exact .inr ⟨e, rfl, kind_of_decodeSecret_error read⟩
  · rw [decodeSecret_eq_ok_iff.2 hs, decodeSecret_eq_ok_iff.2 ht]

theorem spellings_of_secrets_otherAlphabet :
    Spells "-_8".toList [0xFB, 0xFF] ∧ Spells "+/8=".toList [0xFB, 0xFF] ∧
      decodeSecret "-_8" = decodeSecret " +/8=" ∧ decodeSecret "-_8" = .ok [0xFB, 0xFF] := by
  have short : Spells "-_8".toList [0xFB, 0xFF] := ⟨1, by decide⟩
  have full : Spells "+/8=".toList [0xFB, 0xFF] := ⟨0, by decide⟩
  exact ⟨short, full, spellings_of_secrets.2.2.2.1 "-_8" " +/8=" _ short full,
    (spellings_of_secrets.2.1 _ _).2 short⟩

end VenueSigner.Credentials
