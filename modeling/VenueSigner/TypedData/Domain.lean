import VenueSigner.Address
import VenueSigner.Json.Record
/-!
Domains: what a signature over typed data is good for. Only the members that a domain has are
hashed.
-/

namespace VenueSigner.TypedData

open Json (Tree Slot)

structure Domain where
  name : Option String
  version : Option String
  chainId : Option Uint64
  verifyingContract : Option Address
  salt : Option Word
deriving DecidableEq

namespace Domain

/-- The domain under which orders are signed for an exchange contract. -/
def exchange (chainId : Uint64) (contract : Address) : Domain :=
  ⟨some "Polymarket CTF Exchange", some "1", some chainId, some contract, none⟩

def attestation (chainId : Uint64) : Domain :=
  ⟨some "ClobAuthDomain", some "1", some chainId, none, none⟩

def entry {α : Type} (declaration : String) (word : α → Word) : Option α → List (String × Word)
  | none => []
  | some a => [(declaration, word a)]

def entries (d : Domain) : List (String × Word) :=
  entry "string name" Keccak.digestText d.name ++
    entry "string version" Keccak.digestText d.version ++
    entry "uint256 chainId" Uint.toWord d.chainId ++
    entry "address verifyingContract" Address.toWord d.verifyingContract ++
    entry "bytes32 salt" id d.salt

def typeText (d : Domain) : String :=
  "EIP712Domain(" ++ ",".intercalate (d.entries.map (·.1)) ++ ")"

def encode (d : Domain) : Bytes :=
  (Keccak.digestText d.typeText).bytes ++ d.entries.flatMap (·.2.bytes)

def separator (d : Domain) : Word :=
  Keccak.digest d.encode

def ofTree? (t : Tree) : Option Domain :=
  match t.slots? ["name", "version", "chainId", "verifyingContract", "salt"] with
  | some [name, version, chainId, contract, salt] => do
    return ⟨← Slot.optional? Tree.text? name, ← Slot.optional? Tree.text? version,
      ← Slot.optional? (Tree.uint? 64) chainId, ← Slot.optional? (Tree.fixedBytes? 20) contract,
      ← Slot.optional? (Tree.fixedBytes? 32) salt⟩
  | _ => none

def memberTree {α : Type} (name : String) (write : α → Tree) : Option α → List (String × Tree)
  | none => []
  | some a => [(name, write a)]

def toTree (d : Domain) : Tree :=
  .ofMembers <|
    memberTree "name" .ofText d.name ++
      memberTree "version" .ofText d.version ++
      memberTree "chainId" .ofUint d.chainId ++
      memberTree "verifyingContract" (fun a : Address => .ofBytes a.bytes) d.verifyingContract ++
      memberTree "salt" (fun w : Word => .ofBytes w.bytes) d.salt

end Domain

/-- The digest that is signed: a mark that no transaction starts with, the domain, and the
struct. -/
def signingDigest (separator struct : Word) : Word :=
  Keccak.digest ([0x19, 0x01] ++ separator.bytes ++ struct.bytes)

end VenueSigner.TypedData
