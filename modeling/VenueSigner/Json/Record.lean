import VenueSigner.Json.Value
import VenueSigner.Text.Hex
import VenueSigner.Uint
/-!
Reading records of a fixed shape: from an object that has each member at most once, in any order and
among others, or from a list of the members in order. Byte strings in them are texts of hexadecimal
digits, or lists of numbers below 256.
-/

namespace VenueSigner.Json

/-- What a record type finds for one of its members: a tree, or nothing. -/
abbrev Slot := Option Tree

namespace Slot

variable {α : Type}

def required? (read : Tree → Option α) (s : Slot) : Option α :=
  s.bind read

def orElse? (read : Tree → Option α) (default : α) : Slot → Option α
  | some t => read t
  | none => some default

def nullable? (read : Tree → Option α) : Tree → Option (Option α)
  | .null => some none
  | t => (read t).map some

def optional? (read : Tree → Option α) (s : Slot) : Option (Option α) :=
  s.orElse? (nullable? read) none

end Slot

namespace Tree

def membersNamed (name : String) (members : List (Option String × Tree)) : List Tree :=
  (members.filter (·.1 = some name)).map (·.2)

def slotNamed? (members : List (Option String × Tree)) (name : String) : Option Slot :=
  match membersNamed name members with
  | [] => some none
  | [t] => some (some t)
  | _ => none

def slotsInOrder? : List Tree → List String → Option (List Slot)
  | [], names => some (names.map fun _ => none)
  | _ :: _, [] => none
  | t :: items, _ :: names => (slotsInOrder? items names).map (some t :: ·)

/-- The members of a record with the given names, in that order. -/
def slots? (names : List String) : Tree → Option (List Slot)
  | record members =>
    if members.all (·.1.isSome) then names.mapM (slotNamed? members) else none
  | list items => slotsInOrder? items names
  | _ => none

def choice? : Tree → Option String
  | text s => s
  | record [(s, null)] => s
  | _ => none

def oneOf? {α : Type} (all : List α) (name : α → String) (t : Tree) : Option α :=
  t.choice?.bind fun s => all.find? (name · = s)

def items? : Tree → Option (List Tree)
  | list items => some items
  | _ => none

def listOf? {α : Type} (read : Tree → Option α) (t : Tree) : Option (List α) :=
  t.items?.bind (·.mapM read)

def uint? (bits : Nat) (t : Tree) : Option (Uint bits) :=
  t.natural?.bind (Uint.ofNat? bits)

def ofUint {bits : Nat} (n : Uint bits) : Tree := ofNat n.val

mutual

/-- The tree without the members that a later one of the same name replaces. -/
def settle : Tree → Tree
  | list items => .list (settleItems items)
  | record members => .record (settleMembers members)
  | t => t

def settleItems : List Tree → List Tree
  | [] => []
  | t :: rest => settle t :: settleItems rest

def settleMembers : List (Option String × Tree) → List (Option String × Tree)
  | [] => []
  | (k, t) :: rest =>
    if rest.any (·.1 = k) then settleMembers rest else (k, settle t) :: settleMembers rest

end

def hexText? (s : String) : Option Bytes :=
  let digits := Bytes.ofText (Hex.dropMark s)
  if digits.length % 2 = 0 then (Hex.decodePairs 0 digits).toOption else none

def byte? (t : Tree) : Option UInt8 :=
  (t.uint? 8).map fun n => UInt8.ofNat n.val

def bytes? : Tree → Option Bytes
  | text s => s.bind hexText?
  | list items => items.mapM byte?
  | _ => none

def fixedBytes? (size : Nat) (t : Tree) : Option (FixedBytes size) :=
  t.bytes?.bind (FixedBytes.ofBytes? size)

def ofBytes (b : Bytes) : Tree := ofText (Hex.encodePrefixed b)

end Tree

end VenueSigner.Json
