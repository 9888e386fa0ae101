import VenueSigner.TypedData.Domain
import VenueSigner.TypedData.Encode
/-!
Typed data as wallets receive it: a schema, the struct to sign, a domain and a message.
-/

namespace VenueSigner.TypedData

open Json (Slot Tree Value)

namespace Member

def ofTree? (t : Tree) : Option Member :=
  match t.slots? ["name", "type"] with
  | some [name, kind] => do
    return ⟨← Slot.required? Tree.text? name, ← Slot.required? Tree.text? kind⟩
  | _ => none

def toTree (m : Member) : Tree :=
  .ofMembers [("name", .ofText m.name), ("type", .ofText m.kind)]

end Member

namespace Schema

def definition? (m : Option String × Tree) : Option (String × List Member) := do
  let name ← m.1
  let members ← m.2.listOf? Member.ofTree?
  return (name, members)

def ofTree? : Tree → Option Schema
  | .record definitions => (definitions.mapM definition?).map ofList
  | _ => none

def toTree (s : Schema) : Tree :=
  .ofMembers (s.structs.map fun d => (d.1, .list (d.2.map Member.toTree)))

end Schema

def signingHash (d : Domain) (s : Schema) (struct : String) (message : Value) : Result Word := do
  return signingDigest d.separator (← s.hashStruct struct message)

structure Payload where
  schema : Schema
  primaryType : String
  domain : Domain
  message : Value

namespace Payload

def signingHash (p : Payload) : Result Word :=
  TypedData.signingHash p.domain p.schema p.primaryType p.message

/-- Reads a payload; the message lies one level inside it. -/
def ofTree? (t : Tree) : Option Payload :=
  match t.slots? ["types", "primaryType", "domain", "message"] with
  | some [types, primaryType, domain, message] => do
    return ⟨← Slot.required? Schema.ofTree? types, ← Slot.required? Tree.text? primaryType,
      ← Slot.required? Domain.ofTree? domain,
      ← Slot.required? (Value.ofTree? (Value.maxDepth - 1)) message⟩
  | _ => none

def toTree (p : Payload) : Tree :=
  .ofMembers [("types", p.schema.toTree), ("primaryType", .ofText p.primaryType),
    ("domain", p.domain.toTree), ("message", p.message.toTree)]

end Payload

end VenueSigner.TypedData
