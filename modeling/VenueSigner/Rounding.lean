import VenueSigner.Positional
/-!
Quotients of natural numbers rounded to a neighbouring whole number.
-/

namespace VenueSigner.Rounding

def divUp (num den : Nat) : Nat :=
  if num % den = 0 then num / den else num / den + 1

def divHalfUp (num den : Nat) : Nat :=
  if den ≤ 2 * (num % den) then num / den + 1 else num / den

def divHalfEven (num den : Nat) : Nat :=
  let rest := 2 * (num % den)
  if den < rest ∨ (rest = den ∧ num / den % 2 = 1) then num / den + 1 else num / den

theorem divUp_le (num den : Nat) : divUp num den ≤ num / den + 1 := by
  unfold divUp
  split <;> omega

theorem divHalfUp_le (num den : Nat) : divHalfUp num den ≤ num / den + 1 := by
  unfold divHalfUp
  split <;> omega

theorem divHalfEven_le (num den : Nat) : divHalfEven num den ≤ num / den + 1 := by
  unfold divHalfEven
  dsimp only
  split <;> omega

theorem le_divHalfEven (num den : Nat) : num / den ≤ divHalfEven num den := by
  unfold divHalfEven
  dsimp only
  split <;> omega

/-- Which whole number a quotient with a sign is rounded to. -/
inductive Mode
  | down
  | up
  | halfAway
deriving DecidableEq

/-- The absolute value of the rounded quotient: down and up follow the number line, so they change
places below zero. -/
def Mode.apply (mode : Mode) (negative : Bool) (num den : Nat) : Nat :=
  match mode with
  | .down => if negative then divUp num den else num / den
  | .up => if negative then num / den else divUp num den
  | .halfAway => divHalfUp num den

theorem Mode.apply_le (mode : Mode) (negative : Bool) (num den : Nat) :
    mode.apply negative num den ≤ num / den + 1 := by
  have u := divUp_le num den
  have h := divHalfUp_le num den
  cases mode <;> cases negative <;> simp [Mode.apply] <;> omega

end VenueSigner.Rounding
