import VenueSigner.Chain.Call
import VenueSigner.Proofs.KeccakRows
import VenueSigner.Proofs.StructEncoding
/-!
Calls are read by a token contract as they were written. A contract knows its functions by their
signatures: the first four bytes of the digest of a signature select the function, and two words
behind them hold its arguments. What the questions among the calls return is read back as well.
-/

namespace VenueSigner

def Address.ofWord? (w : Word) : Option Address :=
  if w.bytes.take 12 = List.replicate 12 0 then FixedBytes.ofBytes? 20 (w.bytes.drop 12) else none

theorem Address.ofWord?_toWord (a : Address) : ofWord? a.toWord = some a := by
  rw [ofWord?, Address.bytes_toWord]
  simp

theorem FixedBytes.val_toUint256 (w : Word) : w.toUint256.val = w.toNat := by
  rw [FixedBytes.toUint256]

theorem Uint256.toUint256_toWord (n : Uint256) : n.toWord.toUint256 = n := by
  apply Uint.eq_of_val_eq
  rw [FixedBytes.val_toUint256, Uint.toNat_toWord n (Nat.le_refl 256)]

namespace Call

def flag? (w : Word) : Option Bool :=
  if w.toNat = 0 then some false else if w.toNat = 1 then some true else none

theorem toNat_boolWord (b : Bool) : (boolWord b).toNat = b.toNat :=
  FixedBytes.toNat_ofNat (by cases b <;> decide)

theorem flag?_boolWord (b : Bool) : flag? (boolWord b) = some b := by
  rw [flag?, toNat_boolWord]
  cases b <;> rfl

def selectorOf (signature : String) : Bytes :=
  (Keccak.digestText signature).bytes.take 4

/-- The functions of token contracts by their signatures, and how each reads its arguments. -/
def functions : List (String × (Word → Word → Option Call)) := [
  ("approve(address,uint256)", fun v w => do return approve (← Address.ofWord? v) w.toUint256),
  ("setApprovalForAll(address,bool)", fun v w => do
    return setApprovalForAll (← Address.ofWord? v) (← flag? w)),
  ("allowance(address,address)", fun v w => do
    return allowance (← Address.ofWord? v) (← Address.ofWord? w)),
  ("isApprovedForAll(address,address)", fun v w => do
    return isApprovedForAll (← Address.ofWord? v) (← Address.ofWord? w))]

/-- The call that a contract is asked for. What stands behind two words of arguments is ignored. -/
def decode? (data : Bytes) : Option Call := do
  let function ← functions.find? fun f => selectorOf f.1 = data.take 4
  let first ← FixedBytes.ofBytes? 32 ((data.drop 4).take 32)
  let second ← FixedBytes.ofBytes? 32 ((data.drop 36).take 32)
  function.2 first second

def selectors : List (String × Bytes) := [
  ("approve(address,uint256)", [0x09, 0x5E, 0xA7, 0xB3]),
  ("setApprovalForAll(address,bool)", [0xA2, 0x2C, 0xB4, 0x65]),
  ("allowance(address,address)", [0xDD, 0x62, 0xED, 0x3E]),
  ("isApprovedForAll(address,address)", [0xE9, 0x85, 0xE9, 0xC5])]

theorem selectorOf_of_mem {signature : String} {bytes : Bytes}
    (mem : (signature, bytes) ∈ selectors) : selectorOf signature = bytes := by
  have computed : ∀ f ∈ selectors,
      (Keccak.Rows.digest (Bytes.ofText f.1)).bytes.take 4 = f.2 := by
    decide +kernel
  rw [selectorOf, Keccak.digestText, Keccak.digest_eq_rows]
  exact computed (signature, bytes) mem

theorem selectorOf_approve : selectorOf "approve(address,uint256)" = [0x09, 0x5E, 0xA7, 0xB3] :=
  selectorOf_of_mem (.head _)

theorem selectorOf_setApprovalForAll :
    selectorOf "setApprovalForAll(address,bool)" = [0xA2, 0x2C, 0xB4, 0x65] :=
  selectorOf_of_mem (.tail _ (.head _))

theorem selectorOf_allowance :
    selectorOf "allowance(address,address)" = [0xDD, 0x62, 0xED, 0x3E] :=
  selectorOf_of_mem (.tail _ (.tail _ (.head _)))

theorem selectorOf_isApprovedForAll :
    selectorOf "isApprovedForAll(address,address)" = [0xE9, 0x85, 0xE9, 0xC5] :=
  selectorOf_of_mem (.tail _ (.tail _ (.tail _ (.head _))))

theorem decode?_words (selector : Bytes) (four : selector.length = 4) (v w : Word) :
    decode? (selector ++ (v.bytes ++ w.bytes)) =
      (functions.find? fun f => selectorOf f.1 = selector).bind fun f => f.2 v w := by
  have front : (selector ++ (v.bytes ++ w.bytes)).take 4 = selector := by simp [four]
  have first : ((selector ++ (v.bytes ++ w.bytes)).drop 4).take 32 = v.bytes := by
    simp [four, v.length_eq]
  have second : ((selector ++ (v.bytes ++ w.bytes)).drop 36).take 32 = w.bytes := by
    simp [List.drop_append, List.take_of_length_le, four, v.length_eq, w.length_eq]
  simp [decode?, front, first, second]

theorem decode?_encode (c : Call) : decode? c.encode = some c := by
  cases c with
  | approve spender amount =>
    have words := decode?_words [0x09, 0x5E, 0xA7, 0xB3] rfl spender.toWord
      amount.toWord
    simpa [encode, selector, arguments, functions, selectorOf_approve, Address.ofWord?_toWord,
      Uint256.toUint256_toWord] using words
  | setApprovalForAll operator approved =>
    have words := decode?_words [0xA2, 0x2C, 0xB4, 0x65] rfl operator.toWord
      (boolWord approved)
    simpa [encode, selector, arguments, functions, selectorOf_approve,
      selectorOf_setApprovalForAll, Address.ofWord?_toWord, flag?_boolWord] using words
  | allowance owner spender =>
    have words := decode?_words [0xDD, 0x62, 0xED, 0x3E] rfl owner.toWord
      spender.toWord
    simpa [encode, selector, arguments, functions, selectorOf_approve,
      selectorOf_setApprovalForAll, selectorOf_allowance, Address.ofWord?_toWord] using words
  | isApprovedForAll owner operator =>
    have words := decode?_words [0xE9, 0x85, 0xE9, 0xC5] rfl owner.toWord
      operator.toWord
    simpa [encode, selector, arguments, functions, selectorOf_approve,
      selectorOf_setApprovalForAll, selectorOf_allowance, selectorOf_isApprovedForAll,
      Address.ofWord?_toWord] using words

theorem readUint_word (w : Word) : readUint w.bytes = .ok w.toUint256 := by
  have whole : w.bytes.take 32 = w.bytes := List.take_of_length_le (Nat.le_of_eq w.length_eq)
  rw [readUint, whole, FixedBytes.ofBytes?_bytes]

theorem readBool_boolWord (b : Bool) : readBool (boolWord b).bytes = .ok b := by
  have value : (boolWord b).toUint256.val = b.toNat := by
    rw [FixedBytes.val_toUint256, toNat_boolWord]
  simp only [readBool, readUint_word, bind, Except.bind, value]
  cases b <;> rfl

end Call

end VenueSigner
