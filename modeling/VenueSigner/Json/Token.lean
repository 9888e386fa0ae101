import VenueSigner.Json.Literal
/-!
The tokens of a JSON text: how each is written, and how a text is cut into them.
-/

namespace VenueSigner.Json

/-- A token. A string literal with a surrogate that has no partner stands for no text. -/
inductive Token
  | openList
  | closeList
  | openRecord
  | closeRecord
  | comma
  | colon
  | null
  | bool (b : Bool)
  | number (l : Literal)
  | text (s : Option String)
deriving DecidableEq

namespace Token

def hexValue? (c : Char) : Option Nat :=
  let n := c.toNat
  if 48 ≤ n ∧ n ≤ 57 then some (n - 48)
  else if 97 ≤ n ∧ n ≤ 102 then some (n - 87)
  else if 65 ≤ n ∧ n ≤ 70 then some (n - 55)
  else none

def unit? (a b c d : Char) : Option Nat := do
  return (((← hexValue? a) * 16 + (← hexValue? b)) * 16 + (← hexValue? c)) * 16 + (← hexValue? d)

def isHighSurrogate (u : Nat) : Bool := 0xD800 ≤ u && u < 0xDC00

def isLowSurrogate (u : Nat) : Bool := 0xDC00 ≤ u && u < 0xE000

/-- What a string literal spells, piece by piece: a character, or half of a pair. -/
inductive Piece
  | char (c : Char)
  | half (u : Nat)
deriving DecidableEq

def Piece.ofUnit (u : Nat) : Piece :=
  if isHighSurrogate u || isLowSurrogate u then .half u else .char (Char.ofNat u)

def escaped? : Char → Option Char
  | '"' => some '"'
  | '\\' => some '\\'
  | '/' => some '/'
  | 'b' => some '\x08'
  | 'f' => some '\x0c'
  | 'n' => some '\n'
  | 'r' => some '\r'
  | 't' => some '\t'
  | _ => none

def readPieces? : List Char → Option (List Piece × List Char)
  | [] => none
  | '"' :: rest => some ([], rest)
  | '\\' :: 'u' :: a :: b :: c :: d :: rest => do
    let u ← unit? a b c d
    let (ps, rest) ← readPieces? rest
    return (Piece.ofUnit u :: ps, rest)
  | '\\' :: c :: rest => do
    let e ← escaped? c
    let (ps, rest) ← readPieces? rest
    return (.char e :: ps, rest)
  | c :: rest =>
    if c.toNat < 0x20 || c = '\\' then none
    else do
      let (ps, rest) ← readPieces? rest
      return (.char c :: ps, rest)

/-- Puts the halves of pairs together; a half without its partner stands for no text. -/
def joinPieces? : List Piece → Option (List Char)
  | [] => some []
  | .char c :: rest => (joinPieces? rest).map (c :: ·)
  | .half h :: .half l :: rest =>
    if isHighSurrogate h && isLowSurrogate l then
      (joinPieces? rest).map (Char.ofNat (0x10000 + (h - 0xD800) * 0x400 + (l - 0xDC00)) :: ·)
    else none
  | .half _ :: _ => none

def readText? (s : List Char) : Option (Option String × List Char) :=
  (readPieces? s).map fun (ps, rest) => ((joinPieces? ps).map String.ofList, rest)

def escapeChar (c : Char) : List Char :=
  if c = '"' then ['\\', '"']
  else if c = '\\' then ['\\', '\\']
  else if c = '\x08' then ['\\', 'b']
  else if c = '\x0c' then ['\\', 'f']
  else if c = '\n' then ['\\', 'n']
  else if c = '\r' then ['\\', 'r']
  else if c = '\t' then ['\\', 't']
  else if c.toNat < 0x20 then
    ['\\', 'u', '0', '0', Nat.digitChar (c.toNat / 16), Nat.digitChar (c.toNat % 16)]
  else [c]

def textChars (s : String) : List Char :=
  '"' :: s.toList.flatMap escapeChar ++ ['"']

def chars : Token → List Char
  | openList => ['[']
  | closeList => [']']
  | openRecord => ['\x7b']
  | closeRecord => ['\x7d']
  | comma => [',']
  | colon => [':']
  | null => ['n', 'u', 'l', 'l']
  | bool true => ['t', 'r', 'u', 'e']
  | bool false => ['f', 'a', 'l', 's', 'e']
  | number l => l.chars
  | text (some s) => textChars s
  | text none => ['"', '\\', 'u', 'd', '8', '0', '0', '"']

def read? : List Char → Option (Token × List Char)
  | '[' :: rest => some (openList, rest)
  | ']' :: rest => some (closeList, rest)
  | '\x7b' :: rest => some (openRecord, rest)
  | '\x7d' :: rest => some (closeRecord, rest)
  | ',' :: rest => some (comma, rest)
  | ':' :: rest => some (colon, rest)
  | 'n' :: 'u' :: 'l' :: 'l' :: rest => some (null, rest)
  | 't' :: 'r' :: 'u' :: 'e' :: rest => some (bool true, rest)
  | 'f' :: 'a' :: 'l' :: 's' :: 'e' :: rest => some (bool false, rest)
  | '"' :: rest => (readText? rest).map fun (s, rest) => (text s, rest)
  | s => (Literal.read? s).map fun (l, rest) => (number l, rest)

def isSpace (c : Char) : Bool :=
  c = ' ' || c = '\t' || c = '\n' || c = '\r'

def readAll? : Nat → List Char → Option (List Token)
  | 0, s => if s.all isSpace then some [] else none
  | fuel + 1, s =>
    match s.dropWhile isSpace with
    | [] => some []
    | c :: rest => do
      let (t, rest) ← read? (c :: rest)
      return t :: (← readAll? fuel rest)

def lex? (s : List Char) : Option (List Token) :=
  readAll? s.length s

end Token

end VenueSigner.Json
