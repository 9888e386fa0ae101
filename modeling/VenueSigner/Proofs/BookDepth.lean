import VenueSigner.Market.Level
import VenueSigner.Proofs.DecimalExact
/-!
The depth of a book: what its levels add together, and the walk that finds where a target is
reached.
-/

namespace VenueSigner

namespace PriceLevel

open Decimal (Writable)

variable {side : Side} {target sum price : Decimal} {levels : List PriceLevel}

def worth (side : Side) (l : PriceLevel) : ℚ :=
  match side with
  | .buy => l.price.toRat * l.size.toRat
  | .sell => l.size.toRat

def depth (side : Side) (levels : List PriceLevel) : ℚ :=
  (levels.map (worth side)).sum

/-- Decimals have room for what each level adds to a sum, and for the sum after each level. -/
def Exact (side : Side) : ℚ → List PriceLevel → Prop
  | _, [] => True
  | sum, l :: rest => Writable (l.worth side) ∧ Writable (sum + l.worth side) ∧
    Exact side (sum + l.worth side) rest

def Short (side : Side) (goal : ℚ) (levels : List PriceLevel) : Prop :=
  ∀ before, before <+: levels → before ≠ [] → depth side before < goal

/-- The goal is reached at a level, and at none of those passed before it. -/
structure FirstAt (side : Side) (goal : ℚ) (passed : List PriceLevel) (l : PriceLevel) : Prop where
  short : Short side goal passed
  reached : goal ≤ depth side (passed ++ [l])

@[simp]
theorem depth_cons (l : PriceLevel) :
    depth side (l :: levels) = l.worth side + depth side levels := by
  simp [depth]

theorem depth_singleton (l : PriceLevel) : depth side [l] = l.worth side := by
  simp [depth]

theorem short_nil (side : Side) (goal : ℚ) : Short side goal [] := by
  intro before none some
  exact absurd (List.prefix_nil.1 none) some

theorem short_cons_iff {goal : ℚ} {l : PriceLevel} : Short side goal (l :: levels) ↔
    l.worth side < goal ∧ Short side (goal - l.worth side) levels := by
  constructor
  · intro short
    refine ⟨?_, fun before part _ => ?_⟩
    · simpa [depth] using short [l] (List.prefix_append [l] levels) (List.cons_ne_nil l [])
    · have later := short (l :: before) (List.cons_prefix_cons.2 ⟨rfl, part⟩) (List.cons_ne_nil l _)
      rwa [lt_sub_iff_add_lt', ← depth_cons]
  · rintro ⟨low, short⟩ before part some
    obtain none | ⟨before', rfl, first⟩ := List.prefix_cons_iff.1 part
    · contradiction
    · cases before' with
      | nil => rwa [depth_singleton]
      | cons next before' =>
        rw [depth_cons, ← lt_sub_iff_add_lt']
        exact short _ first (List.cons_ne_nil _ _)

theorem firstAt_cons_iff {goal : ℚ} {x l : PriceLevel} : FirstAt side goal (x :: levels) l ↔
    x.worth side < goal ∧ FirstAt side (goal - x.worth side) levels l := by
  constructor
  · rintro ⟨short, reached⟩
    obtain ⟨low, later⟩ := short_cons_iff.1 short
    exact ⟨low, later, sub_le_iff_le_add'.2 reached⟩
  · rintro ⟨low, later, reached⟩
    exact ⟨short_cons_iff.2 ⟨low, later⟩, sub_le_iff_le_add'.1 reached⟩

theorem short_or_firstAt (side : Side) (goal : ℚ) (levels : List PriceLevel) :
    Short side goal levels ∨
      ∃ passed l rest, levels = passed ++ l :: rest ∧ FirstAt side goal passed l := by
  induction levels generalizing goal with
  | nil => exact .inl (short_nil side goal)
  | cons l rest ih =>
    by_cases low : l.worth side < goal
    · obtain short | ⟨passed, next, others, rfl, first⟩ := ih (goal - l.worth side)
      · exact .inl (short_cons_iff.2 ⟨low, short⟩)
      · exact .inr ⟨l :: passed, next, others, rfl, firstAt_cons_iff.2 ⟨low, first⟩⟩
    · refine .inr ⟨[], l, rest, rfl, short_nil side goal, ?_⟩
      rw [List.nil_append, depth_singleton]
      exact not_lt.1 low

theorem contribution_of_writable {l : PriceLevel} (h : Writable (l.worth side)) :
    ∃ filled, l.contribution side = .ok filled ∧ filled.toRat = l.worth side := by
  cases side with
  | buy =>
    obtain ⟨filled, product, value, _⟩ := Decimal.mul?_of_writable h
    exact ⟨filled, by rw [contribution, Decimal.mul, product], value⟩
  | sell => exact ⟨l.size, rfl, rfl⟩

/-- A step of the walk: with room for the sum, the level either reaches the target or is passed. -/
theorem reaching?_cons (target : Decimal) {l : PriceLevel} (levels : List PriceLevel)
    (one : Writable (l.worth side)) (both : Writable (sum.toRat + l.worth side)) :
    ∃ sum' : Decimal, sum'.toRat = sum.toRat + l.worth side ∧
      reaching? side target sum (l :: levels) =
        if target.toRat ≤ sum'.toRat then .ok (some l.price)
        else reaching? side target sum' levels := by
  obtain ⟨filled, contributed, value⟩ := contribution_of_writable one
  rw [← value] at both ⊢
  obtain ⟨sum', added, total⟩ := Decimal.add?_of_writable both
  refine ⟨sum', total, ?_⟩
  simp only [reaching?, contributed, bind, Except.bind, added, ← Decimal.le_iff]
  rfl

theorem reaching?_of_firstAt {passed rest : List PriceLevel} {l : PriceLevel}
    (exact : Exact side sum.toRat (passed ++ l :: rest))
    (first : FirstAt side (target.toRat - sum.toRat) passed l) :
    reaching? side target sum (passed ++ l :: rest) = .ok (some l.price) := by
  -- the running sum is the state of the walk: the other levels start from another one
  induction passed generalizing sum with
  | nil =>
    obtain ⟨sum', total, step⟩ := reaching?_cons target rest exact.1 exact.2.1
    have enough := first.reached
    rw [List.nil_append, depth_singleton, sub_le_iff_le_add', ← total] at enough
    rw [List.nil_append, step, if_pos enough]
  | cons x passed ih =>
    obtain ⟨one, both, exact⟩ := exact
    obtain ⟨sum', total, step⟩ := reaching?_cons target (passed ++ l :: rest) one both
    obtain ⟨low, later⟩ := firstAt_cons_iff.1 first
    rw [lt_sub_iff_add_lt', ← total] at low
    rw [sub_sub, ← total] at later
    rw [← total] at exact
    rw [List.cons_append, step, if_neg (not_le.2 low)]
    exact ih exact later

theorem reaching?_of_short (exact : Exact side sum.toRat levels)
    (short : Short side (target.toRat - sum.toRat) levels) :
    reaching? side target sum levels = .ok none := by
  induction levels generalizing sum with
  | nil => rfl
  | cons l rest ih =>
    obtain ⟨one, both, exact⟩ := exact
    obtain ⟨sum', total, step⟩ := reaching?_cons target rest one both
    obtain ⟨low, later⟩ := short_cons_iff.1 short
    rw [lt_sub_iff_add_lt', ← total] at low
    rw [sub_sub, ← total] at later
    rw [← total] at exact
    rw [step, if_neg (not_le.2 low)]
    exact ih exact later

theorem marketPrice_of_firstAt {passed rest : List PriceLevel} {l : PriceLevel} (tif : TimeInForce)
    (exact : Exact side 0 (passed ++ l :: rest)) (first : FirstAt side target.toRat passed l) :
    marketPrice side (passed ++ l :: rest) target tif = .ok l.price := by
  have walk : reaching? side target .zero (passed ++ l :: rest) = .ok (some l.price) := by
    apply reaching?_of_firstAt
    · rwa [Decimal.toRat_zero]
    · rwa [Decimal.toRat_zero, sub_zero]
  obtain ⟨last, listed⟩ : ∃ last, (passed ++ l :: rest).getLast? = some last :=
    Option.isSome_iff_exists.1 (by simp)
  simp only [marketPrice, listed, walk, bind, Except.bind]
  rfl

theorem marketPrice_of_short {last : PriceLevel} (tif : TimeInForce) (exact : Exact side 0 levels)
    (short : Short side target.toRat levels) (listed : levels.getLast? = some last) :
    marketPrice side levels target tif =
      if tif = .fillOrKill then .error .noMatch else .ok last.price := by
  have walk : reaching? side target .zero levels = .ok none := by
    apply reaching?_of_short
    · rwa [Decimal.toRat_zero]
    · rwa [Decimal.toRat_zero, sub_zero]
  simp only [marketPrice, listed, walk, bind, Except.bind]
  rfl

/-- The price for an order that must be filled is that of the first level at which the target is
reached. -/
theorem marketPrice_fillOrKill (exact : Exact side 0 levels)
    (h : marketPrice side levels target .fillOrKill = .ok price) :
    ∃ passed l rest, levels = passed ++ l :: rest ∧ l.price = price ∧
      (∀ before, before <+: passed → before ≠ [] → depth side before < target.toRat) ∧
      target.toRat ≤ depth side (passed ++ [l]) := by
  obtain short | ⟨passed, l, rest, rfl, first⟩ := short_or_firstAt side target.toRat levels
  · cases listed : levels.getLast? with
    | none => simp [marketPrice, listed] at h
    | some last => simp [marketPrice_of_short .fillOrKill exact short listed] at h
  · rw [marketPrice_of_firstAt .fillOrKill exact first] at h
    cases h
    exact ⟨passed, l, rest, rfl, rfl, first.short, first.reached⟩

end PriceLevel

end VenueSigner
