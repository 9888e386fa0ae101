import VenueSigner.Json.Members
import VenueSigner.Json.Number
import VenueSigner.Json.Tree
/-!
The values that JSON texts denote: numbers with their value, texts, and records whose members are
sorted by name, the last of equal names having won.
-/

namespace VenueSigner.Json

inductive Value
  | null
  | bool (b : Bool)
  | number (n : Number)
  | text (s : String)
  | list (items : List Value)
  | record (members : List (String × Value))

namespace Value

mutual

/-- The value of a tree whose containers are nested at most `depth` deep. -/
def ofTree? (depth : Nat) : Tree → Option Value
  | .null => some .null
  | .bool b => some (.bool b)
  | .number l => (Number.ofLiteral? l).map .number
  | .text s => s.map .text
  | .list items =>
    match depth with
    | 0 => none
    | d + 1 => (ofItems? d items).map .list
  | .record members =>
    match depth with
    | 0 => none
    | d + 1 => (ofMembers? d members).map fun ms => .record (sortMembers ms)

def ofItems? (depth : Nat) : List Tree → Option (List Value)
  | [] => some []
  | t :: rest => do
    let v ← ofTree? depth t
    let vs ← ofItems? depth rest
    return v :: vs

def ofMembers? (depth : Nat) : List (Option String × Tree) → Option (List (String × Value))
  | [] => some []
  | (k, t) :: rest => do
    let k ← k
    let v ← ofTree? depth t
    let vs ← ofMembers? depth rest
    return (k, v) :: vs

end

mutual

def toTree : Value → Tree
  | null => .null
  | bool b => .bool b
  | number n => .number n.literal
  | text s => .text (some s)
  | list items => .list (itemTrees items)
  | record members => .record (memberTrees members)

def itemTrees : List Value → List Tree
  | [] => []
  | v :: rest => toTree v :: itemTrees rest

def memberTrees : List (String × Value) → List (Option String × Tree)
  | [] => []
  | (k, v) :: rest => (some k, toTree v) :: memberTrees rest

end

def maxDepth : Nat := 127

def parse? (s : String) : Option Value :=
  (Tree.parse? s).bind (ofTree? maxDepth)

def render (v : Value) : String :=
  v.toTree.render

def ofMembers (ms : List (String × Value)) : Value :=
  .record (sortMembers ms)

end Value

end VenueSigner.Json
