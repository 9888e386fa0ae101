import VenueSigner.Address
/-!
Calls of token contracts: four bytes that select the function, then one word for each argument; and
the words that the questions among them return.
-/

namespace VenueSigner

inductive Call
  | approve (spender : Address) (amount : Uint256)
  | setApprovalForAll (operator : Address) (approved : Bool)
  | allowance (owner spender : Address)
  | isApprovedForAll (owner operator : Address)
deriving DecidableEq

namespace Call

/-- The first four bytes of the digest of the function's signature. -/
def selector : Call → Bytes
  | approve _ _ => [0x09, 0x5E, 0xA7, 0xB3]
  | setApprovalForAll _ _ => [0xA2, 0x2C, 0xB4, 0x65]
  | allowance _ _ => [0xDD, 0x62, 0xED, 0x3E]
  | isApprovedForAll _ _ => [0xE9, 0x85, 0xE9, 0xC5]

def boolWord (b : Bool) : Word :=
  FixedBytes.ofNat 32 b.toNat

def arguments : Call → List Word
  | approve spender amount => [spender.toWord, amount.toWord]
  | setApprovalForAll operator approved => [operator.toWord, boolWord approved]
  | allowance owner spender => [owner.toWord, spender.toWord]
  | isApprovedForAll owner operator => [owner.toWord, operator.toWord]

def encode (c : Call) : Bytes :=
  c.selector ++ c.arguments.flatMap (·.bytes)

def readUint (returned : Bytes) : Result Uint256 :=
  match FixedBytes.ofBytes? 32 (returned.take 32) with
  | some w => .ok w.toUint256
  | none => .error (.returnTooShort returned.length)

def readBool (returned : Bytes) : Result Bool := do
  let n ← readUint returned
  if n.val = 0 then return false
  else if n.val = 1 then return true
  else throw (.returnNotBool n.val)

end Call

end VenueSigner
