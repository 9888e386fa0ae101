import VenueSigner.Json.Token
/-!
The tree that a JSON text spells: members in the order written, repeated names included, and numbers
as literals. A tree is written as tokens, and a machine with a stack builds it from them again.
-/

namespace VenueSigner.Json

inductive Tree
  | null
  | bool (b : Bool)
  | number (l : Literal)
  | text (s : Option String)
  | list (items : List Tree)
  | record (members : List (Option String × Tree))

namespace Tree

def ofText (s : String) : Tree := .text (some s)

def ofNat (n : Nat) : Tree := .number (.ofNat n)

def ofMembers (ms : List (String × Tree)) : Tree :=
  .record (ms.map fun m => (some m.1, m.2))

mutual

def tokens : Tree → List Token
  | null => [.null]
  | bool b => [.bool b]
  | number l => [.number l]
  | text s => [.text s]
  | list items => .openList :: itemTokens items ++ [.closeList]
  | record members => .openRecord :: memberTokens members ++ [.closeRecord]

def itemTokens : List Tree → List Token
  | [] => []
  | [t] => tokens t
  | t :: rest => tokens t ++ .comma :: itemTokens rest

def memberTokens : List (Option String × Tree) → List Token
  | [] => []
  | [(k, t)] => .text k :: .colon :: tokens t
  | (k, t) :: rest => .text k :: .colon :: tokens t ++ .comma :: memberTokens rest

end

def render (t : Tree) : String :=
  String.ofList (t.tokens.flatMap Token.chars)

/-- A container under construction, its finished parts last first. -/
inductive Frame
  | list (done : List Tree)
  | record (done : List (Option String × Tree)) (key : Option String)

/-- What the machine waits for, and the containers it is inside of, innermost first. -/
inductive State
  | value (stack : List Frame)
  | firstItem (stack : List Frame)
  | firstKey (stack : List Frame)
  | key (done : List (Option String × Tree)) (stack : List Frame)
  | colon (done : List (Option String × Tree)) (key : Option String) (stack : List Frame)
  | after (t : Tree) (stack : List Frame)

namespace State

def begin? (stack : List Frame) : Token → Option State
  | .null => some (after .null stack)
  | .bool b => some (after (.bool b) stack)
  | .number l => some (after (.number l) stack)
  | .text s => some (after (.text s) stack)
  | .openList => some (firstItem stack)
  | .openRecord => some (firstKey stack)
  | _ => none

def step? : State → Token → Option State
  | value stack, t => begin? stack t
  | firstItem stack, .closeList => some (after (.list []) stack)
  | firstItem stack, t => begin? (.list [] :: stack) t
  | firstKey stack, .closeRecord => some (after (.record []) stack)
  | firstKey stack, .text k => some (colon [] k stack)
  | key done stack, .text k => some (colon done k stack)
  | colon done k stack, .colon => some (value (.record done k :: stack))
  | after t (.list done :: stack), .comma => some (value (.list (t :: done) :: stack))
  | after t (.list done :: stack), .closeList =>
    some (after (.list (t :: done).reverse) stack)
  | after t (.record done k :: stack), .comma => some (key ((k, t) :: done) stack)
  | after t (.record done k :: stack), .closeRecord =>
    some (after (.record ((k, t) :: done).reverse) stack)
  | _, _ => none

def run? : List Token → State → Option State
  | [], s => some s
  | t :: rest, s => (step? s t).bind (run? rest)

def result? : State → Option Tree
  | after t [] => some t
  | _ => none

end State

def ofTokens? (ts : List Token) : Option Tree :=
  (State.run? ts (.value [])).bind State.result?

def parse? (s : String) : Option Tree :=
  (Token.lex? s.toList).bind ofTokens?

def text? : Tree → Option String
  | text s => s
  | _ => none

def bool? : Tree → Option Bool
  | bool b => some b
  | _ => none

def natural? : Tree → Option Nat
  | number l => l.natural?
  | _ => none

end Tree

end VenueSigner.Json
