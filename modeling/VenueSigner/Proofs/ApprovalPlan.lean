import VenueSigner.Chain.Approval
import VenueSigner.Proofs.CallReader
import VenueSigner.Proofs.Payload
/-!
Carrying out the plan of approvals makes every check of them pass. Token contracts keep what each
owner lets others move; a transaction changes that for its sender, and a question reads it. After
the transactions of a plan, in any order, each check says that its approval stands; none takes back
what stood before, and nothing changes for other owners.
-/

namespace VenueSigner

/-- What a token contract keeps: how much a spender may move of an owner's money, and whether an
operator may move all tokens of an owner. -/
structure Token where
  allowance : Address → Address → Uint256
  isOperator : Address → Address → Bool

namespace Token

def execute (sender : Address) (data : Bytes) (t : Token) : Token :=
  match Call.decode? data with
  | some (.approve spender amount) =>
    { t with allowance := fun o s => if o = sender ∧ s = spender then amount else t.allowance o s }
  | some (.setApprovalForAll operator approved) =>
    { t with
      isOperator := fun o s => if o = sender ∧ s = operator then approved else t.isOperator o s }
  | _ => t

def answer (data : Bytes) (t : Token) : Bytes :=
  match Call.decode? data with
  | some (.allowance owner spender) => (t.allowance owner spender).toWord.bytes
  | some (.isApprovedForAll owner operator) => (Call.boolWord (t.isOperator owner operator)).bytes
  | _ => []

/-- Whether the contract lets a spender move what an owner has. -/
def Allows (t : Token) (owner spender : Address) : ApprovalKind → Prop
  | .collateral => (t.allowance owner spender).val ≠ 0
  | .conditionalTokens => t.isOperator owner spender = true

theorem answer_allowance (t : Token) (owner spender : Address) :
    t.answer (Call.allowance owner spender).encode = (t.allowance owner spender).toWord.bytes := by
  rw [answer, Call.decode?_encode]

theorem answer_isApprovedForAll (t : Token) (owner operator : Address) :
    t.answer (Call.isApprovedForAll owner operator).encode =
      (Call.boolWord (t.isOperator owner operator)).bytes := by
  rw [answer, Call.decode?_encode]

theorem execute_of_ne {sender owner : Address} (other : owner ≠ sender) (data : Bytes) (t : Token) :
    (t.execute sender data).allowance owner = t.allowance owner ∧
      (t.execute sender data).isOperator owner = t.isOperator owner := by
  unfold execute
  split <;> simp [other]

/-- A grant adds one approval, and takes none away. -/
theorem allows_execute_grant (t : Token) (sender spender owner s : Address)
    (kind k : ApprovalKind) :
    (t.execute sender (kind.grant spender).encode).Allows owner s k ↔
      (owner = sender ∧ s = spender ∧ k = kind) ∨ t.Allows owner s k := by
  have most : ApprovalKind.unlimited.val ≠ 0 := by decide
  rw [execute, Call.decode?_encode]
  by_cases here : owner = sender ∧ s = spender
  · cases kind <;> cases k <;> simp [ApprovalKind.grant, Allows, here, most]
  · cases kind <;> cases k <;> simp [ApprovalKind.grant, Allows, here]

end Token

abbrev Tokens := Address → Token

namespace Tokens

def execute (sender : Address) (x : Transaction) (w : Tokens) : Tokens := fun a =>
  if a = x.recipient then (w a).execute sender x.data else w a

def run (sender : Address) (xs : List Transaction) (w : Tokens) : Tokens :=
  xs.foldl (fun w x => w.execute sender x) w

def untouched : Tokens := fun _ => ⟨fun _ _ => Uint.zero 256, fun _ _ => false⟩

def answer (w : Tokens) (call : Address × Bytes) : Bytes :=
  (w call.1).answer call.2

theorem run_of_ne {sender owner : Address} (other : owner ≠ sender) (xs : List Transaction)
    (w : Tokens) (token : Address) :
    (w.run sender xs token).allowance owner = (w token).allowance owner ∧
      (w.run sender xs token).isOperator owner = (w token).isOperator owner := by
  induction xs generalizing w with
  | nil => exact ⟨rfl, rfl⟩
  | cons x rest ih =>
    have later := ih (w.execute sender x)
    have first : (w.execute sender x token).allowance owner = (w token).allowance owner ∧
        (w.execute sender x token).isOperator owner = (w token).isOperator owner := by
      unfold execute
      split
      · exact Token.execute_of_ne other x.data (w token)
      · exact ⟨rfl, rfl⟩
    exact ⟨later.1.trans first.1, later.2.trans first.2⟩

end Tokens

namespace ApprovalKind

theorem isGranted_toWord (n : Uint256) :
    isGranted n.toWord.bytes collateral = .ok (n.val != 0) := by
  rw [isGranted, Call.readUint_word, Uint256.toUint256_toWord]
  rfl

theorem isGranted_boolWord (b : Bool) :
    isGranted (Call.boolWord b).bytes conditionalTokens = .ok b :=
  Call.readBool_boolWord b

end ApprovalKind

namespace Approval

/-- The check for an owner says that the approval stands. -/
def Stands (a : Approval) (owner : Address) (w : Tokens) : Prop :=
  a.isSatisfied (w.answer (a.check owner)) = .ok true

/-- The transaction is a grant of the approval, sent to its token. -/
structure Carried (a : Approval) : Prop where
  recipient : a.transaction.recipient = a.token
  data : a.transaction.data = (a.kind.grant a.spender).encode

def SameTarget (a b : Approval) : Prop :=
  a.token = b.token ∧ a.spender = b.spender ∧ a.kind = b.kind

variable {a b : Approval} {owner sender : Address} {w : Tokens}

theorem stands_iff : a.Stands owner w ↔ (w a.token).Allows owner a.spender a.kind := by
  obtain ⟨kind, token, spender, x⟩ := a
  rw [Stands, isSatisfied, check, Tokens.answer]
  cases kind with
  | collateral =>
    rw [ApprovalKind.question, Token.answer_allowance, ApprovalKind.isGranted_toWord]
    simp [Token.Allows]
  | conditionalTokens =>
    rw [ApprovalKind.question, Token.answer_isApprovedForAll, ApprovalKind.isGranted_boolWord]
    simp [Token.Allows]

theorem not_stands_untouched : ¬ a.Stands owner Tokens.untouched := by
  rw [stands_iff]
  cases a.kind with
  | collateral => exact fun allowed => allowed rfl
  | conditionalTokens => exact fun allowed => Bool.false_ne_true allowed

/-- A transaction that carries an approval makes it stand, and leaves standing what stood. -/
theorem stands_execute (carried : a.Carried) :
    b.Stands owner (w.execute sender a.transaction) ↔
      (owner = sender ∧ b.SameTarget a) ∨ b.Stands owner w := by
  rw [stands_iff, stands_iff, Tokens.execute, carried.recipient, carried.data]
  by_cases here : b.token = a.token
  · rw [if_pos here, Token.allows_execute_grant, SameTarget]
    simp [here]
  · rw [if_neg here, SameTarget]
    simp [here]

theorem stands_run {as : List Approval} (carried : ∀ a ∈ as, a.Carried) :
    b.Stands owner (w.run sender (as.map (·.transaction))) ↔
      (owner = sender ∧ ∃ a ∈ as, b.SameTarget a) ∨ b.Stands owner w := by
  induction as generalizing w with
  | nil => simp [Tokens.run]
  | cons a rest ih =>
    have first := carried a List.mem_cons_self
    have later := ih (w := w.execute sender a.transaction)
      fun x hx => carried x (List.mem_cons_of_mem a hx)
    simp only [Tokens.run, List.map_cons, List.foldl_cons] at later ⊢
    rw [later, stands_execute first, List.exists_mem_cons_iff, and_or_left, or_assoc]
    exact or_left_comm

/-- The contracts of a market kind may be used: their exchange may move what an owner has. -/
structure Usable (owner : Address) (w : Tokens) (c : Contracts) : Prop where
  collateral : (w c.collateral).Allows owner c.exchange .collateral
  conditionalTokens : (w c.conditionalTokens).Allows owner c.exchange .conditionalTokens

def ofContracts (chainId nonce : Uint64) (gasPrice : Uint 128) (gasLimit : Uint64)
    (regular negRisk : Contracts) : List Approval :=
  (targets regular negRisk).mapIdx fun i target =>
    ofTarget chainId gasPrice gasLimit (nonceAt nonce i) target

variable {chainId nonce : Uint64} {gasPrice : Uint 128} {gasLimit : Uint64}
  {regular negRisk : Contracts}

theorem ofChain_of_supported (supported : chainId = Contracts.polygon ∨ chainId = Contracts.amoy)
    (kind : Bool) : ∃ c, Contracts.ofChain chainId kind = .ok c := by
  obtain rfl | rfl := supported
  · exact ⟨_, rfl⟩
  · exact ⟨_, rfl⟩

theorem plan_of_ofChain (hr : Contracts.ofChain chainId false = .ok regular)
    (hn : Contracts.ofChain chainId true = .ok negRisk) :
    plan chainId nonce gasPrice gasLimit =
      .ok (ofContracts chainId nonce gasPrice gasLimit regular negRisk) := by
  rw [plan, hr, hn]
  rfl

theorem carried_of_mem (ha : a ∈ ofContracts chainId nonce gasPrice gasLimit regular negRisk) :
    a.Carried := by
  obtain ⟨i, _, rfl⟩ := List.mem_mapIdx.1 ha
  exact ⟨rfl, rfl⟩

theorem usable_of_stands (all : ∀ a ∈ ofContracts chainId nonce gasPrice gasLimit regular negRisk,
    a.Stands owner w) : Usable owner w regular ∧ Usable owner w negRisk := by
  simp only [ofContracts, targets, List.mapIdx_cons, List.mapIdx_nil, List.forall_mem_cons,
    stands_iff, ofTarget] at all
  obtain ⟨regularMoney, negRiskMoney, regularTokens, negRiskTokens, -⟩ := all
  exact ⟨⟨regularMoney, regularTokens⟩, ⟨negRiskMoney, negRiskTokens⟩⟩

theorem nonceAt_val {i : Nat} (room : nonce.val + i < 2 ^ 64) :
    (nonceAt nonce i).val = nonce.val + i :=
  Nat.mod_eq_of_lt room

theorem map_nonce_ofContracts (room : nonce.val + 4 < 2 ^ 64) :
    (ofContracts chainId nonce gasPrice gasLimit regular negRisk).map (·.transaction.nonce.val) =
      [nonce.val, nonce.val + 1, nonce.val + 2, nonce.val + 3] := by
  simp only [ofContracts, targets, List.mapIdx_cons, List.mapIdx_nil, List.map_cons, List.map_nil,
    ofTarget]
  rw [nonceAt_val (by omega), nonceAt_val (by omega), nonceAt_val (by omega),
    nonceAt_val (by omega)]
  rfl

theorem nodup_signingPayload {as : List Approval}
    (distinct : (as.map (·.transaction.nonce.val)).Nodup) :
    (as.map (·.transaction.signingPayload)).Nodup := by
  rw [List.Nodup, List.pairwise_map] at distinct ⊢
  refine distinct.imp fun differ same => differ ?_
  rw [Transaction.signingPayload_injective same]

/-- On every chain that the venue runs on there is a plan of four approvals. Whatever the token
contracts keep, after its transactions in any order each of the four checks for their sender says
that the approval stands, the contracts of both kinds of market may be used, and nothing has changed
for other owners. No transaction takes back what stood before it. The nonces follow each other, and
no two payloads to sign are the same. -/
theorem plan_stands {chainId nonce : Uint64} (gasPrice : Uint 128) (gasLimit : Uint64)
    (owner : Address) (supported : chainId = Contracts.polygon ∨ chainId = Contracts.amoy)
    (room : nonce.val + 4 < 2 ^ 64) :
    ∃ as, plan chainId nonce gasPrice gasLimit = .ok as ∧
      (∀ (w : Tokens) (order : List Approval), order.Perm as →
        let after := w.run owner (order.map (·.transaction))
        (∀ a ∈ as, a.Stands owner after) ∧
          (∀ kind, ∃ c, Contracts.ofChain chainId kind = .ok c ∧ Usable owner after c) ∧
          ∀ token other, other ≠ owner →
            (after token).allowance other = (w token).allowance other ∧
              (after token).isOperator other = (w token).isOperator other) ∧
      (∀ (w : Tokens), ∀ a ∈ as, ∀ b ∈ as, ∀ o, b.Stands o w →
        b.Stands o (w.execute owner a.transaction)) ∧
      as.map (·.transaction.nonce.val) =
        [nonce.val, nonce.val + 1, nonce.val + 2, nonce.val + 3] ∧
      (as.map (·.transaction.signingPayload)).Nodup := by
  obtain ⟨regular, hr⟩ := ofChain_of_supported supported false
  obtain ⟨negRisk, hn⟩ := ofChain_of_supported supported true
  refine ⟨_, plan_of_ofChain hr hn, ?_, ?_, map_nonce_ofContracts room, nodup_signingPayload ?_⟩
  · intro w order perm after
    have carried : ∀ a ∈ order, a.Carried := fun a ha => carried_of_mem (perm.mem_iff.1 ha)
    -- an approval stands when any transaction of the order carries it, at whichever place
    have stand : ∀ a ∈ ofContracts chainId nonce gasPrice gasLimit regular negRisk,
        a.Stands owner after := fun a ha =>
      (stands_run carried).2 (.inl ⟨rfl, a, perm.mem_iff.2 ha, rfl, rfl, rfl⟩)
    have usable := usable_of_stands stand
    refine ⟨stand, fun kind => ?_, fun token other ne => w.run_of_ne ne _ token⟩
    cases kind with
    | false => exact ⟨regular, hr, usable.1⟩
    | true => exact ⟨negRisk, hn, usable.2⟩
  · intro w a ha b _ o stood
    exact (stands_execute (carried_of_mem ha)).2 (.inr stood)
  · rw [map_nonce_ofContracts room]
    simp

theorem plan_stands_backwards :
    let nonce : Uint64 := ⟨2 ^ 64 - 5, by decide⟩
    let owner := Contracts.address 1
    nonce.val + 4 < 2 ^ 64 ∧
      ∃ as, plan Contracts.amoy nonce ⟨2 ^ 128 - 1, by decide⟩ defaultGasLimit = .ok as ∧
        (∀ a ∈ as, ¬ a.Stands owner Tokens.untouched ∧
          a.Stands owner (Tokens.untouched.run owner (as.reverse.map (·.transaction)))) ∧
        as.map (·.transaction.nonce.val) = [2 ^ 64 - 5, 2 ^ 64 - 4, 2 ^ 64 - 3, 2 ^ 64 - 2] := by
  intro nonce owner
  have room : nonce.val + 4 < 2 ^ 64 := by decide
  obtain ⟨as, planned, done, -, nonces, -⟩ := plan_stands ⟨2 ^ 128 - 1, by decide⟩
    defaultGasLimit owner (.inr (Eq.refl Contracts.amoy)) room
  have stand := (done Tokens.untouched as.reverse as.reverse_perm).1
  exact ⟨room, as, planned, fun a ha => ⟨not_stands_untouched, stand a ha⟩, nonces⟩

end Approval

end VenueSigner
