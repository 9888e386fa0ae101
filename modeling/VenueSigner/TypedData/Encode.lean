import VenueSigner.TypedData.Kind
import VenueSigner.TypedData.Schema
/-!
Messages under a schema: each struct becomes the digest of its type string followed by one word for
each member, where a member that is itself a struct becomes the digest of its own encoding.
-/

namespace VenueSigner.TypedData

open Json (Value)

theorem sizeOf_lookup_lt {name : String} {ms : List (String × Value)} {v : Value}
    (h : ms.lookup name = some v) : sizeOf v < sizeOf ms := by
  induction ms with
  | nil => simp at h
  | cons m rest ih =>
    obtain ⟨k, w⟩ := m
    by_cases same : name == k
    · simp only [List.lookup_cons, same, Option.some.injEq] at h
      subst h
      simp
      omega
    · simp only [List.lookup_cons, same] at h
      have := ih h
      simp
      omega

namespace Schema

def typeHash (s : Schema) (struct : String) : Result Word :=
  match s.typeText? struct with
  | some t => .ok (Keccak.digestText t)
  | none => .error (.unknownStruct struct)

mutual

/-- The word of a value: the digest of a struct, or the word of an atomic kind. Lists have none. -/
def encodeValue (s : Schema) (kind : String) (v : Value) : Result Word :=
  if kind.toList.getLast? = some ']' then .error (.unsupportedKind kind)
  else if s.has kind then do return Keccak.digest (← s.encodeStruct kind v)
  else
    match Kind.ofName? kind with
    | some k => k.encode kind v
    | none => .error (.unsupportedKind kind)
termination_by (sizeOf v, 1, 0)

def encodeStruct (s : Schema) (struct : String) (v : Value) : Result Bytes :=
  match s.members? struct with
  | none => .error (.unknownStruct struct)
  | some ms =>
    match v with
    | .record object => do
      let front ← s.typeHash struct
      let words ← s.encodeMembers struct object ms
      return front.bytes ++ words
    | _ => .error (.unexpected struct .record)
termination_by (sizeOf v, 0, 0)

def encodeMembers (s : Schema) (struct : String) (object : List (String × Value)) :
    List Member → Result Bytes
  | [] => .ok []
  | m :: rest =>
    match _found : object.lookup m.name with
    | none => .error (.missingMember struct m.name)
    | some v => do
      let word ← s.encodeValue m.kind v
      let words ← s.encodeMembers struct object rest
      return word.bytes ++ words
termination_by ms => (sizeOf object, 2, ms.length)
decreasing_by
  · exact Prod.Lex.left _ _ (sizeOf_lookup_lt _found)
  · exact Prod.Lex.right _ (Prod.Lex.right _ (Nat.lt_succ_self _))

end

def hashStruct (s : Schema) (struct : String) (v : Value) : Result Word := do
  return Keccak.digest (← s.encodeStruct struct v)

end Schema

end VenueSigner.TypedData
