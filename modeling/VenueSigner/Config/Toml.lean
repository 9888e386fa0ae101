import VenueSigner.Config.Setting
import VenueSigner.Text.Digits
/-!
Files of lines `key = value` in the TOML format: no line may repeat a key, and a value is a text
between quotes, a number, or a truth value.
-/

namespace VenueSigner.Toml

def isSpace (c : Char) : Bool :=
  c = ' ' || c = '\t'

def isPlain (c : Char) : Bool :=
  c = '\t' || (0x20 ≤ c.toNat && c.toNat != 0x7F)

def isBare (c : Char) : Bool :=
  c.isAlphanum || c = '_' || c = '-'

/-- The lines of a text, each without the line feed, and the carriage return before it, that end
it. -/
def lines : List Char → List (List Char)
  | [] => [[]]
  | '\n' :: rest => [] :: lines rest
  | '\r' :: '\n' :: rest => [] :: lines rest
  | c :: rest =>
    match lines rest with
    | l :: others => (c :: l) :: others
    | [] => [[c]]

def escaped? : Char → Option Char
  | 'b' => some '\x08'
  | 't' => some '\t'
  | 'n' => some '\n'
  | 'f' => some '\x0c'
  | 'r' => some '\r'
  | '"' => some '"'
  | '\\' => some '\\'
  | _ => none

def codePoint? (digits : List Char) : Option Char := do
  let n := Positional.value (← digits.mapM (Radix.digitTo? 16))
  if n.isValidChar then some (Char.ofNat n) else none

def readEscaped? : List Char → Option (List Char × List Char)
  | [] => none
  | '"' :: rest => some ([], rest)
  | '\\' :: 'u' :: a :: b :: c :: d :: rest => do
    let x ← codePoint? [a, b, c, d]
    let (s, rest) ← readEscaped? rest
    return (x :: s, rest)
  | '\\' :: 'U' :: a :: b :: c :: d :: e :: f :: g :: h :: rest => do
    let x ← codePoint? [a, b, c, d, e, f, g, h]
    let (s, rest) ← readEscaped? rest
    return (x :: s, rest)
  | '\\' :: c :: rest => do
    let x ← escaped? c
    let (s, rest) ← readEscaped? rest
    return (x :: s, rest)
  | c :: rest =>
    if isPlain c && c != '\\' then do
      let (s, rest) ← readEscaped? rest
      return (c :: s, rest)
    else none

def readVerbatim? : List Char → Option (List Char × List Char)
  | [] => none
  | '\x27' :: rest => some ([], rest)
  | c :: rest =>
    if isPlain c then do
      let (s, rest) ← readVerbatim? rest
      return (c :: s, rest)
    else none

def readQuoted? : List Char → Option (String × List Char)
  | '"' :: rest => (readEscaped? rest).map fun (s, rest) => (String.ofList s, rest)
  | '\x27' :: rest => (readVerbatim? rest).map fun (s, rest) => (String.ofList s, rest)
  | _ => none

def readKey? (s : List Char) : Option (String × List Char) :=
  match s.takeWhile isBare with
  | [] => readQuoted? s
  | key => some (String.ofList key, s.dropWhile isBare)

def digits? (base : Nat) : List Char → Option (List (Fin base))
  | [] => none
  | [c] => (Radix.digitTo? base c).map fun d => [d]
  | c :: '_' :: rest => do return (← Radix.digitTo? base c) :: (← digits? base rest)
  | c :: rest => do return (← Radix.digitTo? base c) :: (← digits? base rest)

def whole? (s : List Char) : Option (List Digit) := do
  let ds ← digits? 10 s
  if ds.head? = some 0 ∧ ds.length ≠ 1 then none else return ds

def integer? (negative : Bool) (n : Nat) : Option Setting :=
  if negative then (if n ≤ 2 ^ 63 then some (.whole (-n)) else none)
  else if n < 2 ^ 63 then some (.whole n) else none

def splitSign : List Char → Bool × List Char
  | '-' :: s => (true, s)
  | '+' :: s => (false, s)
  | s => (false, s)

def splitAt (isMark : Char → Bool) (s : List Char) : List Char × Option (List Char) :=
  (s.takeWhile (!isMark ·), (s.dropWhile (!isMark ·)).tail?)

def power? : Option (List Char) → Option Int
  | none => some 0
  | some s => do
    let (negative, s) := splitSign s
    let n : Int := Positional.value (← digits? 10 s)
    return if negative then -n else n

def fraction? : Option (List Char) → Option (List Digit)
  | none => some []
  | some s => digits? 10 s

def float? (negative : Bool) (s : List Char) : Option Setting := do
  let (mantissa, exponent) := splitAt (fun c => c = 'e' || c = 'E') s
  let (front, behind) := splitAt (· = '.') mantissa
  let whole ← whole? front
  let fraction ← fraction? behind
  let power ← power? exponent
  let x ← Binary64.ofScientific? (Positional.value (whole ++ fraction)) (power - fraction.length)
  return .binary { x with negative }

def unsigned? (negative : Bool) (s : List Char) : Option Setting :=
  if s = ['i', 'n', 'f'] then some (.infinite negative)
  else if s = ['n', 'a', 'n'] then some .undefined
  else
    match whole? s with
    | some ds => integer? negative (Positional.value ds)
    | none => float? negative s

/-- What a word without quotes stands for. -/
def word? : List Char → Option Setting
  | ['t', 'r', 'u', 'e'] => some (.flag true)
  | ['f', 'a', 'l', 's', 'e'] => some (.flag false)
  | '0' :: 'x' :: s => (digits? 16 s).bind fun ds => integer? false (Positional.value ds)
  | '0' :: 'o' :: s => (digits? 8 s).bind fun ds => integer? false (Positional.value ds)
  | '0' :: 'b' :: s => (digits? 2 s).bind fun ds => integer? false (Positional.value ds)
  | s => let (negative, s) := splitSign s; unsigned? negative s

def inWord (c : Char) : Bool :=
  !isSpace c && c != '#'

def readValue? (s : List Char) : Option (Setting × List Char) :=
  match readQuoted? s with
  | some (t, rest) => some (.text t, rest)
  | none => (word? (s.takeWhile inWord)).map fun v => (v, s.dropWhile inWord)

def isEnd (s : List Char) : Bool :=
  match s.dropWhile isSpace with
  | [] => true
  | c :: comment => c = '#' && comment.all isPlain

/-- Reads a line: a key with its value, or nothing. -/
def readLine? (s : List Char) : Option (List (String × Setting)) :=
  if isEnd s then some []
  else do
    let (key, rest) ← readKey? (s.dropWhile isSpace)
    match rest.dropWhile isSpace with
    | '=' :: rest => do
      let (v, rest) ← readValue? (rest.dropWhile isSpace)
      if isEnd rest then return [(key, v)] else none
    | _ => none

def parse? (s : String) : Option Settings := do
  let settings ← (lines s.toList).mapM readLine?
  let settings := settings.flatten
  if (settings.map (·.1)).Nodup then return settings else none

end VenueSigner.Toml
