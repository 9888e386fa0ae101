import VenueSigner.Error
import VenueSigner.Json.Record
/-!
The contracts of the venue on the chains it runs on.
-/

namespace VenueSigner

open Json (Slot Tree)

/-- The contracts that orders and approvals of one kind of market name. -/
structure Contracts where
  exchange : Address
  collateral : Address
  conditionalTokens : Address
deriving DecidableEq

namespace Contracts

def polygon : Uint64 := ⟨137, by decide⟩

def amoy : Uint64 := ⟨80002, by decide⟩

def address (n : Nat) : Address := FixedBytes.ofNat 20 n

/-- The contracts on Polygon; markets whose outcomes exclude each other have an exchange of their
own. -/
def onPolygon (negRisk : Bool) : Contracts where
  exchange :=
    if negRisk then address 0xC5d563A36AE78145C45a50134d48A1215220f80a
    else address 0x4bFb41d5B3570DeFd03C39a9A4D8dE6Bd8B8982E
  collateral := address 0x2791Bca1f2de4661ED88A30C99A7a9449Aa84174
  conditionalTokens := address 0x4D97DCd97eC945f40cF65F87097ACe5EA0476045

def onAmoy (negRisk : Bool) : Contracts where
  exchange :=
    if negRisk then address 0xd91E80cF2E7be2e162c6513ceD06f1dD0dA35296
    else address 0xdFE02Eb6733538f8Ea35D585af8DE5958AD99E40
  collateral := address 0x9c4e1703476e875070ee25b56a58b008cfb8fa78
  conditionalTokens := address 0x69308FB512518e39F9b16112fA8d994F4e2Bf8bB

def ofChain (chainId : Uint64) (negRisk : Bool) : Result Contracts :=
  if chainId = polygon then .ok (onPolygon negRisk)
  else if chainId = amoy then .ok (onAmoy negRisk)
  else .error (.unsupportedChain chainId)

def ofTree? (t : Tree) : Option Contracts :=
  match t.slots? ["exchange", "collateral", "conditional_tokens"] with
  | some [exchange, collateral, conditionalTokens] => do
    return ⟨← Slot.required? (Tree.fixedBytes? 20) exchange,
      ← Slot.required? (Tree.fixedBytes? 20) collateral,
      ← Slot.required? (Tree.fixedBytes? 20) conditionalTokens⟩
  | _ => none

def toTree (c : Contracts) : Tree :=
  .ofMembers [("exchange", .ofBytes c.exchange.bytes), ("collateral", .ofBytes c.collateral.bytes),
    ("conditional_tokens", .ofBytes c.conditionalTokens.bytes)]

end Contracts

end VenueSigner
