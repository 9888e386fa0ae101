/-!
Positional notation: the number that digits to a base denote, most significant first. Powers are
always those of the core library, also where a module imports more algebra, so that a power means
the same in every module.
-/

namespace VenueSigner

@[default_instance 20000]
instance (priority := high) corePow {α : Type} [NatPow α] : Pow α Nat := instPowNat

namespace Positional

variable {base : Nat}

/-- The number that digits denote. -/
def value (ds : List (Fin base)) : Nat :=
  ds.foldl (fun n d => n * base + d.val) 0

@[simp] theorem value_nil : value ([] : List (Fin base)) = 0 := rfl

@[simp] theorem value_concat (ds : List (Fin base)) (d : Fin base) :
    value (ds ++ [d]) = value ds * base + d.val := by
  simp [value]

theorem foldl_eq (n : Nat) (ds : List (Fin base)) :
    ds.foldl (fun n d => n * base + d.val) n = n * base ^ ds.length + value ds := by
  unfold value
  induction ds generalizing n with
  | nil => simp
  | cons d ds ih =>
    rw [List.foldl_cons, ih, List.foldl_cons, ih (0 * base + d.val), List.length_cons,
      Nat.pow_succ', Nat.zero_mul, Nat.zero_add, Nat.add_mul, Nat.mul_assoc, Nat.add_assoc]

theorem value_cons (n : Nat) (d : Fin base) (ds : List (Fin base)) :
    n * base ^ (d :: ds).length + value (d :: ds) =
      (n * base + d.val) * base ^ ds.length + value ds := by
  rw [← foldl_eq, ← foldl_eq, List.foldl_cons]

theorem value_append (ds es : List (Fin base)) :
    value (ds ++ es) = value ds * base ^ es.length + value es := by
  rw [value, List.foldl_append, ← value, foldl_eq]

theorem value_zeros (count : Nat) (ds : List (Fin (base + 1))) :
    value (List.replicate count 0 ++ ds) = value ds := by
  induction count with
  | zero => rfl
  | succ count ih =>
    rw [← ih, List.replicate_succ, List.cons_append, value, List.foldl_cons, Nat.zero_mul]
    rfl

theorem value_lt_pow (ds : List (Fin base)) : value ds < base ^ ds.length := by
  induction ds with
  | nil => simp
  | cons d ds ih =>
    have join := value_cons 0 d ds
    have room : d.val * base ^ ds.length + base ^ ds.length ≤ base * base ^ ds.length := by
      rw [← Nat.succ_mul]
      exact Nat.mul_le_mul_right _ d.isLt
    rw [Nat.zero_mul, Nat.zero_add, Nat.zero_mul, Nat.zero_add] at join
    rw [join, List.length_cons, Nat.pow_succ']
    omega

end Positional

end VenueSigner
