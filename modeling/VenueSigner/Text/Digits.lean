import VenueSigner.Positional
/-!
Numerals: decimal digits as characters, the shortest list of digits that denotes a number, and
numerals to the bases two, eight, ten and sixteen with the base marked in front.
-/

namespace VenueSigner

abbrev Digit := Fin 10

instance (priority := high) Digit.nonempty : @NeZero Nat Zero.ofOfNat0 10 :=
  Nat.instNeZeroSucc

namespace Digit

def ofChar? (c : Char) : Option Digit :=
  if h : '0'.toNat ≤ c.toNat ∧ c.toNat ≤ '9'.toNat then
    some ⟨c.toNat - '0'.toNat, by have := h.1; have := h.2; simp at *; omega⟩
  else
    none

def toChar (d : Digit) : Char :=
  Char.ofNat ('0'.toNat + d.val)

@[simp] theorem ofChar?_toChar (d : Digit) : ofChar? d.toChar = some d := by
  revert d
  decide

end Digit

namespace Digits

open Positional (value value_concat)

def ofNat (n : Nat) : List Digit :=
  if n < 10 then [Fin.ofNat 10 n] else ofNat (n / 10) ++ [Fin.ofNat 10 n]

@[simp] theorem value_ofNat (n : Nat) : value (ofNat n) = n := by
  induction n using Nat.strongRecOn with
  | ind n ih =>
    rw [ofNat]
    split
    · simp [value]
      omega
    · rw [value_concat, ih (n / 10) (by omega)]
      simp
      omega

def span : List Char → List Digit × List Char
  | [] => ([], [])
  | c :: rest =>
    match Digit.ofChar? c with
    | some d => ((span rest).map (d :: ·) id)
    | none => ([], c :: rest)

def ofChars? (s : List Char) : Option (List Digit) :=
  s.mapM Digit.ofChar?

def toChars (ds : List Digit) : List Char :=
  ds.map Digit.toChar

def text (n : Nat) : String :=
  String.ofList (toChars (ofNat n))

def intText : Int → String
  | .ofNat n => text n
  | .negSucc n => "-" ++ text (n + 1)

def natural? (s : List Char) : Option Nat :=
  if s.isEmpty then none else (ofChars? s).map value

/-- The number of a numeral that may have a plus sign in front. -/
def signedNatural? : List Char → Option Nat
  | '+' :: rest => natural? rest
  | s => natural? s

end Digits

namespace Radix

def digit? (c : Char) : Option Nat :=
  let n := c.toNat
  if 48 ≤ n ∧ n ≤ 57 then some (n - 48)
  else if 97 ≤ n ∧ n ≤ 122 then some (n - 87)
  else if 65 ≤ n ∧ n ≤ 90 then some (n - 55)
  else none

def digitTo? (base : Nat) (c : Char) : Option (Fin base) :=
  (digit? c).bind fun d => if h : d < base then some ⟨d, h⟩ else none

/-- The number that digits to a base denote; separators among them do not count. -/
def valueTo? (base : Nat) (s : List Char) : Option Nat :=
  ((s.filter (· != '_')).mapM (digitTo? base)).map Positional.value

def value? : List Char → Option Nat
  | '0' :: 'x' :: s => valueTo? 16 s
  | '0' :: 'X' :: s => valueTo? 16 s
  | '0' :: 'o' :: s => valueTo? 8 s
  | '0' :: 'O' :: s => valueTo? 8 s
  | '0' :: 'b' :: s => valueTo? 2 s
  | '0' :: 'B' :: s => valueTo? 2 s
  | s => valueTo? 10 s

def hexChar (n : Nat) : Char :=
  if n < 10 then Char.ofNat (48 + n) else Char.ofNat (87 + n)

def hexChars (n : Nat) : List Char :=
  if n < 16 then [hexChar n] else hexChars (n / 16) ++ [hexChar (n % 16)]

def hexText (n : Nat) : String :=
  String.ofList ('0' :: 'x' :: hexChars n)

end Radix

end VenueSigner
