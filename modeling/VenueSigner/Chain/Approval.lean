import VenueSigner.Chain.Call
import VenueSigner.Chain.Contracts
import VenueSigner.Chain.Transaction
/-!
The approvals that a wallet gives before it trades: both exchanges may move its money and its
outcome tokens. Each can be asked for on the chain and granted by a transaction.
-/

namespace VenueSigner

inductive ApprovalKind
  | collateral
  | conditionalTokens
deriving DecidableEq

/-- An approval, with the transaction that grants it. -/
structure Approval where
  kind : ApprovalKind
  token : Address
  spender : Address
  transaction : Transaction
deriving DecidableEq

namespace ApprovalKind

def name : ApprovalKind → String
  | collateral => "Collateral"
  | conditionalTokens => "ConditionalTokens"

def unlimited : Uint256 := ⟨2 ^ 256 - 1, by decide⟩

def grant (spender : Address) : ApprovalKind → Call
  | collateral => .approve spender unlimited
  | conditionalTokens => .setApprovalForAll spender true

def question (owner spender : Address) : ApprovalKind → Call
  | collateral => .allowance owner spender
  | conditionalTokens => .isApprovedForAll owner spender

def isGranted (returned : Bytes) : ApprovalKind → Result Bool
  | collateral => do return (← Call.readUint returned).val != 0
  | conditionalTokens => Call.readBool returned

end ApprovalKind

namespace Approval

def check (a : Approval) (owner : Address) : Address × Bytes :=
  (a.token, (a.kind.question owner a.spender).encode)

/-- Whether the answer to the question says that the approval stands. -/
def isSatisfied (a : Approval) (returned : Bytes) : Result Bool :=
  a.kind.isGranted returned

def defaultGasLimit : Uint64 := ⟨100000, by decide⟩

def targets (regular negRisk : Contracts) : List (ApprovalKind × Address × Address) := [
  (.collateral, regular.collateral, regular.exchange),
  (.collateral, negRisk.collateral, negRisk.exchange),
  (.conditionalTokens, regular.conditionalTokens, regular.exchange),
  (.conditionalTokens, negRisk.conditionalTokens, negRisk.exchange)]

def nonceAt (first : Uint64) (i : Nat) : Uint64 :=
  ⟨(first.val + i) % 2 ^ 64, Nat.mod_lt _ (by decide)⟩

def ofTarget (chainId : Uint64) (gasPrice : Uint 128) (gasLimit nonce : Uint64)
    (target : ApprovalKind × Address × Address) : Approval :=
  let (kind, token, spender) := target
  ⟨kind, token, spender,
    { nonce, gasPrice, gasLimit, chainId
      recipient := token
      value := Uint.zero 256
      data := (kind.grant spender).encode }⟩

/-- All approvals on a chain, with successive nonces. -/
def plan (chainId nonce : Uint64) (gasPrice : Uint 128) (gasLimit : Uint64) :
    Result (List Approval) := do
  let regular ← Contracts.ofChain chainId false
  let negRisk ← Contracts.ofChain chainId true
  return (targets regular negRisk).mapIdx fun i target =>
    ofTarget chainId gasPrice gasLimit (nonceAt nonce i) target

def signAll (signer : Signer) (approvals : List Approval) : Result (List SignedTransaction) :=
  approvals.mapM (·.transaction.sign signer)

end Approval

end VenueSigner
