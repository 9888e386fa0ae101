import Mathlib.Data.Fintype.Basic
import Mathlib.Data.List.Chain
import Mathlib.Tactic.FinCases
import VenueSigner.Json.Tree
import VenueSigner.Proofs.ReadBack
/-!
JSON texts are read as they were written: every tree comes back from its text, with its numbers as
they were spelled and its texts in every character, also those that must be escaped.
-/

namespace VenueSigner

def Digits.End (s : List Char) : Prop :=
  ∀ c ∈ s.head?, Digit.ofChar? c = none

theorem Digits.span_append (ds : List Digit) {rest : List Char} (stop : Digits.End rest) :
    Digits.span (Digits.toChars ds ++ rest) = (ds, rest) := by
  induction ds with
  | nil =>
    cases rest with
    | nil => rfl
    | cons c rest =>
      have none := stop c rfl
      simp only [Digits.toChars, List.map_nil, List.nil_append, Digits.span, none]
  | cons d ds ih =>
    simp only [Digits.toChars, List.map_cons, List.cons_append] at ih ⊢
    rw [Digits.span, Digit.ofChar?_toChar, ih]
    rfl

theorem Digits.head?_ofNat {n : Nat} (pos : 0 < n) : (Digits.ofNat n).head? ≠ some 0 := by
  induction n using Nat.strongRecOn with
  | ind n ih =>
    rw [Digits.ofNat]
    split
    · next small =>
      simp only [List.head?_cons, ne_eq, Option.some.injEq, Fin.ext_iff, Fin.val_ofNat]
      change ¬ n % 10 = 0
      omega
    · next large =>
      have front := ih (n / 10) (by omega) (by omega)
      obtain ⟨d, ds, h⟩ := List.exists_cons_of_ne_nil (Digits.ofNat_ne_nil (n / 10))
      rw [h] at front ⊢
      exact front

namespace Json

namespace Literal

/-- The text does not go on with a part of a literal. -/
def End (s : List Char) : Prop :=
  ∀ c ∈ s.head?, Digit.ofChar? c = none ∧ c ≠ '.' ∧ c ≠ 'e' ∧ c ≠ 'E'

theorem readWhole?_append (n : Nat) {rest : List Char} (stop : Digits.End rest) :
    readWhole? (Digits.toChars (Digits.ofNat n) ++ rest) = some (n, rest) := by
  have value := Digits.value_ofNat n
  have front : 0 < n → (Digits.ofNat n).head? ≠ some 0 := Digits.head?_ofNat
  obtain ⟨d, ds, h⟩ := List.exists_cons_of_ne_nil (Digits.ofNat_ne_nil n)
  have plain : ¬ (d = 0 ∧ ds ≠ []) := by
    rintro ⟨rfl, more⟩
    cases n with
    | zero => exact more (List.cons.inj (h.symm.trans (by rw [Digits.ofNat]; rfl))).2
    | succ n => exact front (Nat.succ_pos n) (by rw [h]; rfl)
  rw [readWhole?, Digits.span_append _ stop, h]
  rw [h] at value
  simp only [plain, ↓reduceIte, value]

theorem readFraction?_append (ds : List Digit) {rest : List Char} (stop : Digits.End rest)
    (noPoint : rest.head? ≠ some '.') :
    readFraction? (fractionChars ds ++ rest) = some (ds, rest) := by
  cases ds with
  | nil =>
    rw [fractionChars, List.nil_append]
    unfold readFraction?
    split
    · next s => simp at noPoint
    · rfl
  | cons d ds =>
    have span := Digits.span_append (d :: ds) stop
    simp only [fractionChars, List.cons_append, readFraction?, span]

theorem readPower?_append (negative : Bool) (n : Nat) {rest : List Char} (stop : Digits.End rest) :
    readPower? negative (Digits.toChars (Digits.ofNat n) ++ rest) =
      some (some (if negative then -(n : Int) else n), rest) := by
  have value := Digits.value_ofNat n
  obtain ⟨d, ds, h⟩ := List.exists_cons_of_ne_nil (Digits.ofNat_ne_nil n)
  rw [readPower?, Digits.span_append _ stop, h]
  rw [h] at value
  simp only [value]

theorem readExponent?_append (e : Option Int) {rest : List Char} (stop : End rest) :
    readExponent? (exponentChars e ++ rest) = some (e, rest) := by
  have noDigit : Digits.End rest := fun c h => (stop c h).1
  cases e with
  | none =>
    have noMark : rest.head? ≠ some 'e' ∧ rest.head? ≠ some 'E' :=
      ⟨fun h => (stop 'e' h).2.2.1 rfl, fun h => (stop 'E' h).2.2.2 rfl⟩
    rw [exponentChars, List.nil_append]
    unfold readExponent?
    split <;> first | rfl | simp at noMark
  | some n =>
    cases n with
    | ofNat n => exact readPower?_append false n noDigit
    | negSucc n => exact readPower?_append true (n + 1) noDigit

theorem digitsEnd_exponentChars (e : Option Int) {rest : List Char} (stop : End rest) :
    Digits.End (exponentChars e ++ rest) ∧ (exponentChars e ++ rest).head? ≠ some '.' := by
  cases e with
  | none => exact ⟨fun c h => (stop c h).1, fun h => (stop '.' h).2.1 rfl⟩
  | some n =>
    have mark : (exponentChars (some n) ++ rest).head? = some 'e' := by cases n <;> rfl
    constructor
    · intro c h
      rw [mark, Option.mem_some_iff] at h
      subst h
      decide
    · rw [mark]
      decide

theorem digitsEnd_fractionChars (ds : List Digit) {rest : List Char} (stop : Digits.End rest) :
    Digits.End (fractionChars ds ++ rest) := by
  cases ds with
  | nil => exact stop
  | cons d ds =>
    intro c h
    cases h
    decide

theorem readUnsigned?_append (l : Literal) {rest : List Char} (stop : End rest) :
    readUnsigned? l.negative (Digits.toChars (Digits.ofNat l.whole) ++
      (fractionChars l.fraction ++ (exponentChars l.exponent ++ rest))) = some (l, rest) := by
  obtain ⟨noDigit, noPoint⟩ := digitsEnd_exponentChars l.exponent stop
  rw [readUnsigned?, readWhole?_append _ (digitsEnd_fractionChars l.fraction noDigit)]
  simp only [Option.bind_eq_bind, Option.bind_some, readFraction?_append _ noDigit noPoint,
    readExponent?_append _ stop]
  rfl

theorem head?_digits (n : Nat) (rest : List Char) :
    ∃ d : Digit, ∃ s, Digits.toChars (Digits.ofNat n) ++ rest = d.toChar :: s := by
  obtain ⟨d, ds, h⟩ := List.exists_cons_of_ne_nil (Digits.ofNat_ne_nil n)
  exact ⟨d, _, by rw [h]; rfl⟩

theorem chars_eq (l : Literal) (rest : List Char) : l.chars ++ rest =
    (if l.negative then ['-'] else []) ++ (Digits.toChars (Digits.ofNat l.whole) ++
      (fractionChars l.fraction ++ (exponentChars l.exponent ++ rest))) := by
  simp only [chars, List.append_assoc]

theorem head?_chars (l : Literal) (rest : List Char) :
    (∃ s, l.chars ++ rest = '-' :: s) ∨ ∃ d : Digit, ∃ s, l.chars ++ rest = d.toChar :: s := by
  rw [chars_eq]
  cases l.negative with
  | true => exact .inl ⟨_, rfl⟩
  | false => exact .inr (head?_digits _ _)

/-- A literal is read as it was spelled, when what follows is no part of it. -/
theorem read?_chars (l : Literal) {rest : List Char} (stop : End rest) :
    read? (l.chars ++ rest) = some (l, rest) := by
  have unsigned := l.readUnsigned?_append stop
  rw [chars_eq]
  cases h : l.negative with
  | true =>
    rw [h] at unsigned
    exact unsigned
  | false =>
    rw [h] at unsigned
    obtain ⟨d, s, front⟩ := head?_digits l.whole
      (fractionChars l.fraction ++ (exponentChars l.exponent ++ rest))
    have noSign (d : Digit) : d.toChar ≠ '-' := by
      revert d
      decide
    simp only [Bool.false_eq_true, ↓reduceIte, List.nil_append]
    rw [front] at unsigned ⊢
    unfold read?
    split
    · next s' same => exact absurd (List.cons.inj same).1 (noSign d)
    · exact unsigned

end Literal

namespace Token

theorem hexValue?_digitChar : ∀ n < 16, hexValue? (Nat.digitChar n) = some n := by
  decide

theorem unit?_digitChars {n : Nat} (h : n < 0x20) :
    unit? '0' '0' (Nat.digitChar (n / 16)) (Nat.digitChar (n % 16)) = some n := by
  have high := hexValue?_digitChar (n / 16) (by omega)
  have low := hexValue?_digitChar (n % 16) (by omega)
  have zero : hexValue? '0' = some 0 := by decide
  simp only [unit?, high, low, zero, Option.bind_eq_bind, Option.bind_some, Option.pure_def,
    Option.some.injEq]
  omega

theorem ofUnit_of_lt {c : Char} (h : c.toNat < 0x20) : Piece.ofUnit c.toNat = .char c := by
  have notHalf : (isHighSurrogate c.toNat || isLowSurrogate c.toNat) = false := by
    simp only [isHighSurrogate, isLowSurrogate, Bool.or_eq_false_iff, Bool.and_eq_false_iff,
      decide_eq_false_iff_not]
    omega
  rw [Piece.ofUnit, notHalf, Char.ofNat_toNat]
  rfl

theorem readPieces?_escapeChar (c : Char) (rest : List Char) :
    readPieces? (escapeChar c ++ rest) =
      (readPieces? rest).map fun p => (.char c :: p.1, p.2) := by
  have step (x : Option (List Piece × List Char)) (p : Piece)
      {f : List Piece × List Char → Option (List Piece × List Char)}
      (adds : ∀ q, f q = some (p :: q.1, q.2)) : x.bind f = x.map fun q => (p :: q.1, q.2) := by
    cases x with
    | none => rfl
    | some q => exact adds q
  unfold escapeChar
  -- seven characters have an escape of their own
  iterate 7
    split
    · next known =>
      subst known
      exact step _ _ fun _ => rfl
  split
  · next control =>
    simp only [List.cons_append, List.nil_append, readPieces?, unit?_digitChars control,
      Option.bind_eq_bind, Option.bind_some, ofUnit_of_lt control]
    exact step _ _ fun _ => rfl
  · next notQuote notMark _ _ _ _ _ printed =>
    rw [List.singleton_append, readPieces?]
    · rw [if_neg (by simp [printed, notMark])]
      exact step _ _ fun _ => rfl
    all_goals simp_all

theorem readPieces?_escaped (cs rest : List Char) :
    readPieces? (cs.flatMap escapeChar ++ '"' :: rest) = some (cs.map .char, rest) := by
  induction cs with
  | nil => rfl
  | cons c cs ih =>
    rw [List.flatMap_cons, List.append_assoc, readPieces?_escapeChar, ih]
    rfl

theorem joinPieces?_chars (cs : List Char) : joinPieces? (cs.map .char) = some cs := by
  induction cs with
  | nil => rfl
  | cons c cs ih => rw [List.map_cons, joinPieces?, ih, Option.map_some]

theorem readText?_escaped (s : String) (rest : List Char) :
    readText? (s.toList.flatMap escapeChar ++ '"' :: rest) = some (some s, rest) := by
  simp only [readText?, readPieces?_escaped, Option.map_some, joinPieces?_chars,
    String.ofList_toList]

def isNumber : Token → Bool
  | number _ => true
  | _ => false

theorem read?_of_digit (d : Digit) (s : List Char) : read? (d.toChar :: s) =
    (Literal.read? (d.toChar :: s)).map fun (l, rest) => (number l, rest) := by
  fin_cases d <;> rfl

/-- A token is read as it was written; after a number there must not be a part of a literal. -/
theorem read?_chars (t : Token) {rest : List Char} (stop : t.isNumber → Literal.End rest) :
    read? (t.chars ++ rest) = some (t, rest) := by
  cases t with
  | openList | closeList | openRecord | closeRecord | comma | colon | null => rfl
  | bool b => cases b <;> rfl
  | number l =>
    have literal := congrArg (Option.map fun p => (number p.1, p.2))
      (l.read?_chars (stop rfl))
    rw [Option.map_some] at literal
    rw [chars, ← literal]
    obtain ⟨s, sign⟩ | ⟨d, s, digit⟩ := l.head?_chars rest
    · rw [sign]
      rfl
    · rw [digit]
      exact read?_of_digit d s
  | text s =>
    cases s with
    | none => rfl
    | some s =>
      have read := readText?_escaped s rest
      rw [chars, textChars, List.cons_append, List.cons_append, List.append_assoc,
        List.singleton_append, read?, read]
      rfl

theorem isSpace_digit (d : Digit) : isSpace d.toChar = false := by
  revert d
  decide

theorem dropWhile_chars (t : Token) (rest : List Char) :
    (t.chars ++ rest).dropWhile isSpace = t.chars ++ rest := by
  cases t with
  | openList | closeList | openRecord | closeRecord | comma | colon | null => rfl
  | bool b => cases b <;> rfl
  | number l =>
    rw [chars]
    obtain ⟨s, sign⟩ | ⟨d, s, digit⟩ := l.head?_chars rest
    · rw [sign]
      rfl
    · rw [digit, List.dropWhile_cons, isSpace_digit]
      rfl
  | text s => cases s <;> rfl

theorem chars_append_ne_nil (t : Token) (rest : List Char) : t.chars ++ rest ≠ [] := by
  intro h
  have read := t.dropWhile_chars rest
  cases t with
  | number l =>
    obtain ⟨s, sign⟩ | ⟨d, s, digit⟩ := l.head?_chars rest
    · rw [chars, sign] at h
      contradiction
    · rw [chars, digit] at h
      contradiction
  | bool b => cases b <;> contradiction
  | text s => cases s <;> contradiction
  | _ => contradiction

theorem literalEnd_chars {t : Token} (other : t.isNumber = false) (rest : List Char) :
    Literal.End (t.chars ++ rest) := by
  have starts (c : Char) (s : List Char)
      (h : Digit.ofChar? c = none ∧ c ≠ '.' ∧ c ≠ 'e' ∧ c ≠ 'E') : Literal.End (c :: s) := by
    intro d hd
    cases hd
    exact h
  cases t with
  | openList | closeList | openRecord | closeRecord | comma | colon | null =>
    exact starts _ _ (by decide)
  | bool b => cases b <;> exact starts _ _ (by decide)
  | number l => contradiction
  | text s => cases s <;> exact starts _ _ (by decide)

/-- No two numbers stand side by side. -/
def Apart : List Token → Prop :=
  List.IsChain fun a b => a.isNumber → b.isNumber = false

theorem literalEnd_flatMap {t : Token} {ts : List Token} (apart : Apart (t :: ts))
    (number : t.isNumber) : Literal.End (ts.flatMap chars) := by
  cases ts with
  | nil =>
    intro c h
    contradiction
  | cons u ts =>
    rw [List.flatMap_cons]
    exact literalEnd_chars ((List.isChain_cons_cons.1 apart).1 number) _

theorem readAll?_flatMap {ts : List Token} (apart : Apart ts) {fuel : Nat}
    (enough : ts.length ≤ fuel) : readAll? fuel (ts.flatMap chars) = some ts := by
  induction ts generalizing fuel with
  | nil => cases fuel <;> rfl
  | cons t ts ih =>
    obtain ⟨fuel, rfl⟩ := Nat.exists_eq_succ_of_ne_zero (Nat.ne_zero_of_lt enough)
    have rest := ih (List.isChain_of_isChain_cons apart) (Nat.le_of_succ_le_succ enough)
    have first := t.read?_chars (literalEnd_flatMap apart)
    obtain ⟨c, s, front⟩ := List.exists_cons_of_ne_nil (t.chars_append_ne_nil (ts.flatMap chars))
    rw [List.flatMap_cons, readAll?, dropWhile_chars]
    rw [front] at first ⊢
    simp only [first, Option.bind_eq_bind, Option.bind_some, rest]
    rfl

theorem length_le_flatMap (ts : List Token) : ts.length ≤ (ts.flatMap chars).length := by
  induction ts with
  | nil => exact Nat.le_refl 0
  | cons t ts ih =>
    have nonempty := List.length_pos_iff.2 (t.chars_append_ne_nil [])
    rw [List.append_nil] at nonempty
    rw [List.flatMap_cons, List.length_append, List.length_cons]
    omega

/-- A text is cut into the tokens that it was written from. -/
theorem lex?_flatMap {ts : List Token} (apart : Apart ts) : lex? (ts.flatMap chars) = some ts :=
  readAll?_flatMap apart (length_le_flatMap ts)

theorem apart_cons {t : Token} {ts : List Token} (other : t.isNumber = false) (h : Apart ts) :
    Apart (t :: ts) :=
  List.isChain_cons.2 ⟨fun _ _ number => by simp [other] at number, h⟩

end Token

namespace Tree

open Token (Apart apart_cons)

mutual

theorem apart_tokens (t : Tree) {u : Token} {ts : List Token} (other : u.isNumber = false)
    (h : Apart (u :: ts)) : Apart (t.tokens ++ u :: ts) := by
  have plain (v : Token) : Apart ([v] ++ u :: ts) :=
    List.isChain_cons_cons.2 ⟨fun _ => other, h⟩
  cases t with
  | null | bool b | number l | text s => exact plain _
  | list items =>
    rw [tokens, List.cons_append, List.cons_append, List.append_assoc]
    exact apart_cons rfl (apart_itemTokens items rfl (apart_cons rfl h))
  | record members =>
    rw [tokens, List.cons_append, List.cons_append, List.append_assoc]
    exact apart_cons rfl (apart_memberTokens members rfl (apart_cons rfl h))

theorem apart_itemTokens (items : List Tree) {u : Token} {ts : List Token}
    (other : u.isNumber = false) (h : Apart (u :: ts)) : Apart (itemTokens items ++ u :: ts) := by
  match items with
  | [] => exact h
  | [t] => exact apart_tokens t other h
  | t :: next :: rest =>
    rw [itemTokens, List.append_assoc, List.cons_append]
    · exact apart_tokens t rfl (apart_cons rfl (apart_itemTokens (next :: rest) other h))
    · simp

theorem apart_memberTokens (members : List (Option String × Tree)) {u : Token} {ts : List Token}
    (other : u.isNumber = false) (h : Apart (u :: ts)) :
    Apart (memberTokens members ++ u :: ts) := by
  match members with
  | [] => exact h
  | [(k, t)] => exact apart_cons rfl (apart_cons rfl (apart_tokens t other h))
  | (k, t) :: next :: rest =>
    rw [memberTokens]
    · simp only [List.cons_append, List.append_assoc]
      exact apart_cons rfl (apart_cons rfl (apart_tokens t rfl
        (apart_cons rfl (apart_memberTokens (next :: rest) other h))))
    · simp

end

namespace State

theorem run?_firstItem (t : Tree) (items : List Tree) (stack : List Frame) (rest : List Token) :
    run? (itemTokens (t :: items) ++ rest) (.firstItem stack) =
      run? (itemTokens (t :: items) ++ rest) (.value (.list [] :: stack)) := by
  cases t <;> cases items <;> rfl

theorem run?_firstKey (m : Option String × Tree) (members : List (Option String × Tree))
    (stack : List Frame) (rest : List Token) :
    run? (memberTokens (m :: members) ++ rest) (.firstKey stack) =
      run? (memberTokens (m :: members) ++ rest) (.key [] stack) := by
  cases members with
  | nil | cons next more => rfl

mutual

/-- The machine builds a tree from its tokens, whatever containers it is inside of. -/
theorem run?_tokens (t : Tree) (stack : List Frame) (rest : List Token) :
    run? (t.tokens ++ rest) (.value stack) = run? rest (.after t stack) := by
  cases t with
  | null | bool b | number l | text s => rfl
  | list items =>
    rw [tokens, List.cons_append, List.cons_append, List.append_assoc]
    change run? _ (.firstItem stack) = _
    cases items with
    | nil => rfl
    | cons t items =>
      rw [run?_firstItem]
      exact run?_itemTokens (t :: items) (List.cons_ne_nil t items) [] stack rest
  | record members =>
    rw [tokens, List.cons_append, List.cons_append, List.append_assoc]
    change run? _ (.firstKey stack) = _
    cases members with
    | nil => rfl
    | cons m members =>
      rw [run?_firstKey]
      exact run?_memberTokens (m :: members) (List.cons_ne_nil m members) [] stack rest

theorem run?_itemTokens (items : List Tree) (some : items ≠ []) (done : List Tree)
    (stack : List Frame) (rest : List Token) :
    run? (itemTokens items ++ .closeList :: rest) (.value (.list done :: stack)) =
      run? rest (.after (.list (done.reverse ++ items)) stack) := by
  match items with
  | [t] =>
    rw [itemTokens, run?_tokens, ← List.reverse_cons]
    rfl
  | t :: next :: items =>
    have step := run?_itemTokens (next :: items) (List.cons_ne_nil next items) (t :: done) stack
      rest
    rw [List.reverse_cons, List.append_assoc, List.singleton_append] at step
    rw [itemTokens, List.append_assoc, run?_tokens]
    · exact step
    · simp

theorem run?_memberTokens (members : List (Option String × Tree)) (some : members ≠ [])
    (done : List (Option String × Tree)) (stack : List Frame) (rest : List Token) :
    run? (memberTokens members ++ .closeRecord :: rest) (.key done stack) =
      run? rest (.after (.record (done.reverse ++ members)) stack) := by
  match members with
  | [(k, t)] =>
    change run? (t.tokens ++ _) (.value (.record done k :: stack)) = _
    rw [run?_tokens, ← List.reverse_cons]
    rfl
  | (k, t) :: next :: members =>
    have step := run?_memberTokens (next :: members) (List.cons_ne_nil next members)
      ((k, t) :: done) stack rest
    rw [List.reverse_cons, List.append_assoc, List.singleton_append] at step
    rw [memberTokens]
    · simp only [List.cons_append, List.append_assoc]
      change run? (t.tokens ++ _) (.value (.record done k :: stack)) = _
      rw [run?_tokens]
      exact step
    · simp

end

end State

/-- Every tree is read from the text that it is written as. -/
theorem parse?_render (t : Tree) : parse? t.render = some t := by
  have apart : Apart t.tokens := by
    have followed := t.apart_tokens (u := .comma) rfl (List.isChain_singleton _)
    exact (List.isChain_append.1 followed).1
  have built := State.run?_tokens t [] []
  rw [List.append_nil] at built
  rw [parse?, render, String.toList_ofList, Token.lex?_flatMap apart, Option.bind_some, ofTokens?,
    built]
  rfl

theorem render_injective {t u : Tree} (h : t.render = u.render) : t = u := by
  rw [← Option.some.injEq, ← t.parse?_render, ← u.parse?_render, h]

end Tree

end Json

end VenueSigner
