import VenueSigner.Auth.Headers
import VenueSigner.Proofs.Base64Text
import VenueSigner.Proofs.Commitment
import VenueSigner.Proofs.PostedOrder
/-!
The headers of a request. Their signature is the keyed digest of what is asked for, as a text of
forty-four characters. What the digest covers tells the time, the method, and the path with the
body, although nothing stands between them, so that a signature serves for no other time and no
other method.
-/

namespace VenueSigner

/-- The text is that of a digest: forty-three symbols of the alphabet that needs no escape, and a
filler, which are read as the digest. -/
structure Base64.WritesDigest (text : String) (digest : Word) : Prop where
  length : text.length = 44
  symbols : ∃ front, text.toList = front ++ ['='] ∧
    ∀ c ∈ front, c.isAlphanum ∨ c = '-' ∨ c = '_'
  decoded : decode urlSafe (Bytes.ofText text) = .ok digest.bytes

theorem Base64.writesDigest_encodeText (digest : Word) :
    WritesDigest (encodeText urlSafe digest.bytes) digest := by
  have last : fillers digest.bytes.length = 1 := by
    rw [digest.length_eq]
    rfl
  have chars := toList_encodeText urlSafe digest.bytes
  rw [last] at chars
  refine ⟨?_, ⟨_, chars, ?_⟩, ?_⟩
  · rw [← String.length_toList, chars, List.length_append, List.length_map, length_sextets,
      digest.length_eq]
    rfl
  · have all : ∀ d : Fin 64, (letter urlSafe d).isAlphanum ∨ letter urlSafe d = '-' ∨
        letter urlSafe d = '_' := by decide
    rw [List.forall_mem_map]
    exact fun d _ => all d
  · rw [ofText_encodeText faithful_urlSafe]
    exact decode_encode faithful_urlSafe digest.bytes

theorem Base64.WritesDigest.eq {text : String} {v w : Word} (hv : WritesDigest text v)
    (hw : WritesDigest text w) : v = w :=
  FixedBytes.ext (Except.ok.inj (hv.decoded.symm.trans hw.decoded))

/-- The parts of a request can be told apart when nothing stands between them: the method has no
slash and does not start with a digit, and the path starts with a slash. -/
structure Separable (method path : String) : Prop where
  noSlash : '/' ∉ method.toList
  noDigit : ∀ c ∈ method.toList.head?, c.isDigit = false
  slash : path.toList.head? = some '/'

theorem Digit.ofChar?_eq_none {c : Char} (h : c.isDigit = false) : ofChar? c = none := by
  refine dif_neg fun range => ?_
  have digit : c.isDigit = true := by
    rw [Char.isDigit, Bool.and_eq_true, decide_eq_true_eq, decide_eq_true_eq]
    exact range
  rw [h] at digit
  contradiction

theorem Separable.digitsEnd {method path : String} (h : Separable method path) (rest : List Char) :
    Digits.End (method.toList ++ (path.toList ++ rest)) := by
  intro c first
  cases front : method.toList with
  | nil =>
    obtain ⟨more, chars⟩ := List.head?_eq_some_iff.1 h.slash
    rw [front, chars] at first
    obtain rfl := Option.some.inj first
    decide
  | cons d more =>
    rw [front] at first
    obtain rfl := Option.some.inj first
    exact Digit.ofChar?_eq_none (h.noDigit d (by rw [front]; rfl))

theorem Bytes.ofText_append (s t : String) : ofText (s ++ t) = ofText s ++ ofText t := by
  rw [ofText, String.toList_append, List.flatMap_append]
  rfl

namespace Credentials

theorem requestBytes_eq (timestamp : Uint64) (method path : String) (body : Option String) :
    requestBytes timestamp method path body =
      Bytes.ofText (Digits.text timestamp.val ++ method ++ path ++ body.getD "") := by
  simp only [requestBytes, Bytes.ofText_append]

/-- What the digest of a request covers tells its time, its method, and its path with its body. -/
theorem parts_of_requestBytes_eq {t u : Uint64} {m n p q : String} {b c : Option String}
    (hm : Separable m p) (hn : Separable n q) (h : requestBytes t m p b = requestBytes u n q c) :
    t = u ∧ m = n ∧ p ++ b.getD "" = q ++ c.getD "" := by
  rw [requestBytes_eq, requestBytes_eq] at h
  have texts := congrArg String.toList (Bytes.ofText_injective h)
  simp only [String.toList_append, Digits.text, String.toList_ofList, List.append_assoc] at texts
  have left := Digits.span_append (Digits.ofNat t.val) (hm.digitsEnd (b.getD "").toList)
  have right := Digits.span_append (Digits.ofNat u.val) (hn.digitsEnd (c.getD "").toList)
  rw [texts, right] at left
  obtain ⟨digits, rest⟩ := Prod.mk.inj left
  have times := congrArg Positional.value digits
  rw [Digits.value_ofNat, Digits.value_ofNat] at times
  obtain ⟨p', pathChars⟩ := List.head?_eq_some_iff.1 hm.slash
  obtain ⟨q', pathChars'⟩ := List.head?_eq_some_iff.1 hn.slash
  rw [pathChars, pathChars', List.cons_append, List.cons_append] at rest
  obtain ⟨methods, tails⟩ := append_cons_inj hn.noSlash hm.noSlash rest
  refine ⟨Uint.eq_of_val_eq times.symm, String.toList_injective methods.symm,
    String.toList_injective ?_⟩
  rw [String.toList_append, String.toList_append, pathChars, pathChars', List.cons_append,
    List.cons_append, tails]

end Credentials

/-- The headers carry the keyed digest of a request, of which they tell the time. -/
structure Headers.Cover (h : Headers) (key : Bytes) (timestamp : Uint64) (method path : String)
    (body : Option String) : Prop where
  time : (h.lookup "POLY_TIMESTAMP").bind (Uint.ofNumeral? 64) = some timestamp
  signed : ∃ time text, h.lookup "POLY_TIMESTAMP" = some time ∧
    h.lookup "POLY_SIGNATURE" = some text ∧
    Base64.WritesDigest text
      (Hmac.digest key (Bytes.ofText (time ++ method ++ path ++ body.getD "")))

open Credentials (decodeSecret requestBytes)

namespace Signer

variable {s : Signer} {c : Credentials} {timestamp : Uint64} {method path : String}
  {body : Option String} {key : Bytes}

def requestHeadersWith (s : Signer) (c : Credentials) (timestamp : Uint64) (digest : Word) :
    Headers := [
  ("POLY_ADDRESS", s.address.lowercase),
  ("POLY_API_KEY", c.key),
  ("POLY_PASSPHRASE", c.passphrase),
  ("POLY_SIGNATURE", Base64.encodeText Base64.urlSafe digest.bytes),
  ("POLY_TIMESTAMP", Digits.text timestamp.val)]

theorem requestHeaders_eq (s : Signer) (c : Credentials) (timestamp : Uint64) (method path : String)
    (body : Option String) : s.requestHeaders c timestamp method path body =
      (decodeSecret c.secret).map fun key =>
        s.requestHeadersWith c timestamp
          (Hmac.digest key (requestBytes timestamp method path body)) := by
  rw [requestHeaders, Credentials.requestDigest]
  cases decodeSecret c.secret with
  | ok key => rfl
  | error e => rfl

theorem requestHeaders_of_decodeSecret (s : Signer) (hk : decodeSecret c.secret = .ok key)
    (timestamp : Uint64) (method path : String) (body : Option String) :
    s.requestHeaders c timestamp method path body =
      .ok (s.requestHeadersWith c timestamp
        (Hmac.digest key (requestBytes timestamp method path body))) := by
  rw [requestHeaders_eq, hk]
  rfl

theorem cover_requestHeadersWith (s : Signer) (c : Credentials) (key : Bytes) (timestamp : Uint64)
    (method path : String) (body : Option String) :
    (s.requestHeadersWith c timestamp
      (Hmac.digest key (requestBytes timestamp method path body))).Cover key timestamp method path
        body where
  time := Uint.ofNumeral?_text timestamp
  signed := by
    refine ⟨_, _, rfl, rfl, ?_⟩
    rw [← Credentials.requestBytes_eq]
    exact Base64.writesDigest_encodeText _

theorem same_of_signature_eq {s' : Signer} {c' : Credentials} {u : Uint64} {n q : String}
    {b' : Option String} {h h' : Headers} (hk : decodeSecret c.secret = .ok key)
    (hk' : decodeSecret c'.secret = .ok key)
    (hh : s.requestHeaders c timestamp method path body = .ok h)
    (hh' : s'.requestHeaders c' u n q b' = .ok h')
    (same : h.lookup "POLY_SIGNATURE" = h'.lookup "POLY_SIGNATURE")
    (hm : Separable method path) (hn : Separable n q) :
    (timestamp = u ∧ method = n ∧ path ++ body.getD "" = q ++ b'.getD "") ∨
      (requestBytes timestamp method path body ≠ requestBytes u n q b' ∧
        Hmac.digest key (requestBytes timestamp method path body) =
          Hmac.digest key (requestBytes u n q b')) := by
  rw [requestHeaders_of_decodeSecret s hk] at hh
  rw [requestHeaders_of_decodeSecret s' hk'] at hh'
  obtain rfl := Except.ok.inj hh
  obtain rfl := Except.ok.inj hh'
  have texts : Base64.encodeText Base64.urlSafe
        (Hmac.digest key (requestBytes timestamp method path body)).bytes =
      Base64.encodeText Base64.urlSafe (Hmac.digest key (requestBytes u n q b')).bytes :=
    Option.some.inj same
  have written := Base64.writesDigest_encodeText
    (Hmac.digest key (requestBytes timestamp method path body))
  rw [texts] at written
  have digests := written.eq (Base64.writesDigest_encodeText _)
  by_cases bytes : requestBytes timestamp method path body = requestBytes u n q b'
  · exact .inl (Credentials.parts_of_requestBytes_eq hm hn bytes)
  · exact .inr ⟨bytes, digests⟩

/-- There are headers of a request exactly if the secret can be read, and then they carry the keyed
digest of the time that they tell, the method, the path and the body. What the digest covers tells
these parts, as long as the method has no slash and no digit in front and the path starts with a
slash. So one signature under one key serves for one time, one method and one path with its body,
unless two byte strings have the same keyed digest. -/
theorem requestHeaders_cover :
    (∀ (s : Signer) (c : Credentials) (t : Uint64) (m p : String) (b : Option String),
      (∃ key h, decodeSecret c.secret = .ok key ∧ s.requestHeaders c t m p b = .ok h ∧
        h.Cover key t m p b) ∨
      ∃ e, decodeSecret c.secret = .error e ∧ s.requestHeaders c t m p b = .error e) ∧
    (∀ (t u : Uint64) (m n p q : String) (b b' : Option String), Separable m p → Separable n q →
      requestBytes t m p b = requestBytes u n q b' →
      t = u ∧ m = n ∧ p ++ b.getD "" = q ++ b'.getD "") ∧
    ∀ (s s' : Signer) (c c' : Credentials) (key : Bytes) (t u : Uint64) (m n p q : String)
      (b b' : Option String) (h h' : Headers), decodeSecret c.secret = .ok key →
      decodeSecret c'.secret = .ok key → s.requestHeaders c t m p b = .ok h →
      s'.requestHeaders c' u n q b' = .ok h' →
      h.lookup "POLY_SIGNATURE" = h'.lookup "POLY_SIGNATURE" →
      Separable m p → Separable n q →
      (t = u ∧ m = n ∧ p ++ b.getD "" = q ++ b'.getD "") ∨
        (requestBytes t m p b ≠ requestBytes u n q b' ∧
          Hmac.digest key (requestBytes t m p b) = Hmac.digest key (requestBytes u n q b')) := by
  refine ⟨fun s c t m p b => ?_, fun t u m n p q b b' => Credentials.parts_of_requestBytes_eq,
    fun s s' c c' key t u m n p q b b' h h' => same_of_signature_eq⟩
  rw [requestHeaders_eq]
  cases read : decodeSecret c.secret with
  | ok key => exact .inl ⟨key, _, rfl, rfl, cover_requestHeadersWith s c key t m p b⟩
  | error e => exact .inr ⟨e, rfl, rfl⟩

theorem requestHeaders_cover_longerPath :
    Separable "POST" "/order" ∧ Separable "POST" "/orders" ∧
      (ofKey .least Contracts.polygon).requestHeaders ⟨"", "AA", ""⟩ (.zero 64)
          "POST" "/order" (some "s") =
        (ofKey .least Contracts.polygon).requestHeaders ⟨"", "AA", ""⟩ (.zero 64)
          "POST" "/orders" none ∧
      "/order" ++ (some "s").getD "" = "/orders" ++ (none : Option String).getD "" := by
  have short : Separable "POST" "/order" :=
    ⟨by decide, fun _ h => Option.some.inj h ▸ rfl, by decide⟩
  have long : Separable "POST" "/orders" := ⟨short.noSlash, short.noDigit, by decide⟩
  have read : decodeSecret (Credentials.mk "" "AA" "").secret = .ok [0] := rfl
  have covered : requestBytes (.zero 64) "POST" "/order" (some "s") =
      requestBytes (.zero 64) "POST" "/orders" none := by
    have paths : "/order" ++ (some "s").getD "" = "/orders" ++ (none : Option String).getD "" := by
      decide
    rw [Credentials.requestBytes_eq, Credentials.requestBytes_eq, String.append_assoc, paths,
      ← String.append_assoc]
  have first := requestHeaders_of_decodeSecret (ofKey .least Contracts.polygon) read
    (.zero 64) "POST" "/order" (some "s")
  have second := requestHeaders_of_decodeSecret (ofKey .least Contracts.polygon) read
    (.zero 64) "POST" "/orders" none
  rw [← covered] at second
  refine ⟨short, long, first.trans second.symm, ?_⟩
  obtain equal | collision :=
    requestHeaders_cover.2.2 _ _ _ _ _ _ _ _ _ _ _ _ _ _ _ read read first second rfl short long
  · exact equal.2.2
  · exact (requestHeaders_cover.2.1 _ _ _ _ _ _ _ _ short long covered).2.2

end Signer

end VenueSigner
