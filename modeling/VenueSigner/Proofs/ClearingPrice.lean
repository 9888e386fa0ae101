import VenueSigner.Proofs.BookFill
/-!
The price that a book gives is its clearing price. Levels are taken in their order until the target
is reached; with the best first, the price is the best one at which there is enough, and a book has
one exactly if all of it is enough.
-/

namespace VenueSigner

namespace Side

variable {side : Side} {p q r : ℚ}

def beats (side : Side) (than price : ℚ) : Bool :=
  match side with
  | .buy => price < than
  | .sell => than < price

theorem beats_iff : side.beats p q = true ↔ ¬ side.accepts q p = true := by
  cases side <;> simp [beats, accepts]

theorem accepts_trans (first : side.accepts p q = true) (second : side.accepts q r = true) :
    side.accepts p r = true := by
  cases side with
  | buy =>
    simp only [accepts, decide_eq_true_eq] at first second ⊢
    exact second.trans first
  | sell =>
    simp only [accepts, decide_eq_true_eq] at first second ⊢
    exact first.trans second

theorem beats_of_accepts (better : side.beats p q = true) (best : side.accepts q r = true) :
    side.beats p r = true := by
  rw [beats_iff] at better ⊢
  exact fun worse => better (accepts_trans best worse)

end Side

namespace PriceLevel

open OrderBuilder (sixTenths)

variable {side : Side} {goal : ℚ} {levels passed rest : List PriceLevel} {l : PriceLevel}

def better (side : Side) (price : ℚ) (levels : List PriceLevel) : List PriceLevel :=
  levels.filter fun l => side.beats price l.price.toRat

/-- The price of a level at which levels have enough: what is priced at it or better reaches the
goal, what is strictly better does not, and there is not enough at any better one. -/
structure Clears (side : Side) (goal : ℚ) (levels : List PriceLevel) (price : Decimal) : Prop where
  listed : ∃ l ∈ levels, l.price = price
  enough : goal ≤ depth side (tradable side price.toRat levels)
  short : depth side (better side price.toRat levels) < goal
  best : ∀ l ∈ levels, goal ≤ depth side (tradable side l.price.toRat levels) →
    side.accepts l.price.toRat price.toRat = true

@[simp]
theorem depth_append : depth side (passed ++ rest) = depth side passed + depth side rest := by
  simp [depth]

theorem depth_nonneg (worth : ∀ l ∈ levels, 0 ≤ l.worth side) : 0 ≤ depth side levels := by
  apply List.sum_nonneg
  simpa using worth

theorem Short.lt {before : List PriceLevel} (short : Short side goal levels) (positive : 0 < goal)
    (part : before <+: levels) : depth side before < goal := by
  cases before with
  | nil => exact positive
  | cons first others => exact short _ part (List.cons_ne_nil first others)

theorem FirstAt.worth_pos (first : FirstAt side goal passed l) (positive : 0 < goal) :
    0 < l.worth side := by
  have low := first.short.lt positive (List.prefix_refl passed)
  have reached := first.reached
  rw [depth_append, depth_singleton] at reached
  linarith

theorem Ranked.worth_nonneg (ranked : Ranked side (passed ++ l :: rest))
    (adds : 0 < l.worth side) : ∀ x ∈ rest, 0 ≤ x.worth side := by
  intro x mem
  have size := ranked.sizes x (by simp [mem])
  cases side with
  | sell => exact size
  | buy =>
    have ordered := (List.pairwise_append.1 ranked.bestFirst).2.1
    have behind := (List.pairwise_cons.1 ordered).1 x mem
    simp only [Side.accepts, decide_eq_true_eq] at behind
    have price : 0 < l.price.toRat := pos_of_mul_pos_left adds (ranked.sizes l (by simp))
    exact mul_nonneg (price.le.trans behind) size

/-- Levels that are chosen by their price, so that none is chosen without the better ones, are the
first ones; without a given level, they are among those before it. -/
theorem Ranked.filter_prefix {good : ℚ → Bool}
    (closed : ∀ p q, side.accepts p q = true → good p = true → good q = true)
    (ranked : Ranked side (passed ++ l :: rest)) (out : ¬ good l.price.toRat = true) :
    ((passed ++ l :: rest).filter fun x => good x.price.toRat) <+: passed := by
  have ordered := ranked.bestFirst
  clear ranked
  induction passed with
  | nil =>
    have behind := (List.pairwise_cons.1 ordered).1
    rw [List.prefix_nil, List.nil_append, List.filter_eq_nil_iff]
    intro x mem chosen
    obtain rfl | mem := List.mem_cons.1 mem
    · exact out chosen
    · exact out (closed _ _ (behind x mem) chosen)
  | cons x passed ih =>
    obtain ⟨behind, ordered⟩ := List.pairwise_cons.1 ordered
    rw [List.cons_append, List.filter_cons]
    split
    · exact List.cons_prefix_cons.2 ⟨rfl, ih ordered⟩
    · next bad =>
      -- from the first level that is not chosen on, none is
      have none : ((passed ++ l :: rest).filter fun x => good x.price.toRat) = [] := by
        refine List.filter_eq_nil_iff.2 fun y mem chosen => bad ?_
        exact closed _ _ (behind y mem) chosen
      rw [none]
      exact List.nil_prefix

/-- The price of the level at which the goal is reached first is the clearing price. -/
theorem FirstAt.clears (first : FirstAt side goal passed l) (positive : 0 < goal)
    (ranked : Ranked side (passed ++ l :: rest)) :
    Clears side goal (passed ++ l :: rest) l.price where
  listed := ⟨l, by simp, rfl⟩
  enough := by
    have later := ranked.worth_nonneg (first.worth_pos positive)
    rw [List.append_cons, tradable, List.filter_append, List.filter_eq_self.2 ranked.accepts_upTo,
      depth_append]
    refine first.reached.trans (le_add_of_nonneg_right (depth_nonneg fun x mem => later x ?_))
    exact List.mem_of_mem_filter mem
  short := by
    apply first.short.lt positive
    apply ranked.filter_prefix fun p q best better => Side.beats_of_accepts better best
    rw [Side.beats_iff, not_not]
    exact side.accepts_refl l.price.toRat
  best := by
    intro m _ enough
    by_contra worse
    have part := ranked.filter_prefix (fun p q best given => Side.accepts_trans given best) worse
    exact absurd enough (not_le.2 (first.short.lt positive part))

theorem FirstAt.le_depth (first : FirstAt side goal passed l) (positive : 0 < goal)
    (ranked : Ranked side (passed ++ l :: rest)) : goal ≤ depth side (passed ++ l :: rest) := by
  have later := ranked.worth_nonneg (first.worth_pos positive)
  rw [List.append_cons, depth_append]
  exact first.reached.trans (le_add_of_nonneg_right (depth_nonneg later))

/-- What a book gives as the price for a target, when its sums are exact. An empty one gives none.
It is the price of the first level at which the target is reached; when there is none, an order that
must be filled has no price, and any other has that of the last level. With the best levels first,
there is enough for an order exactly if all of the book is enough, at the clearing price. -/
theorem marketPrice_clears {target : Decimal} (exact : Exact side 0 levels) :
    (levels = [] → ∀ tif, marketPrice side levels target tif = .error .noMatch) ∧
    (∀ passed l rest, levels = passed ++ l :: rest → FirstAt side target.toRat passed l →
      ∀ tif, marketPrice side levels target tif = .ok l.price) ∧
    (∀ last, levels.getLast? = some last → Short side target.toRat levels →
      ∀ tif, marketPrice side levels target tif =
        if tif = .fillOrKill then .error .noMatch else .ok last.price) ∧
    (0 < target.toRat → Ranked side levels →
      ((∃ price, marketPrice side levels target .fillOrKill = .ok price) ↔
        target.toRat ≤ depth side levels) ∧
      ∀ price, marketPrice side levels target .fillOrKill = .ok price →
        (∀ tif, marketPrice side levels target tif = .ok price) ∧
          Clears side target.toRat levels price) := by
  refine ⟨?_, ?_, ?_, fun positive ranked => ⟨⟨?_, ?_⟩, ?_⟩⟩
  · rintro rfl tif
    rfl
  · rintro passed l rest rfl first tif
    exact marketPrice_of_firstAt tif exact first
  · intro last listed short tif
    exact marketPrice_of_short tif exact short listed
  · rintro ⟨price, priced⟩
    obtain ⟨passed, l, rest, rfl, -, short, reached⟩ := marketPrice_fillOrKill exact priced
    exact FirstAt.le_depth ⟨short, reached⟩ positive ranked
  · intro enough
    obtain short | ⟨passed, l, rest, rfl, first⟩ := short_or_firstAt side target.toRat levels
    · exact absurd enough (not_le.2 (short.lt positive (List.prefix_refl levels)))
    · exact ⟨l.price, marketPrice_of_firstAt .fillOrKill exact first⟩
  · intro price priced
    obtain ⟨passed, l, rest, rfl, rfl, short, reached⟩ := marketPrice_fillOrKill exact priced
    have first : FirstAt side target.toRat passed l := ⟨short, reached⟩
    exact ⟨fun tif => marketPrice_of_firstAt tif exact first, first.clears positive ranked⟩

def fifty : Decimal := ⟨false, 50, 0, by decide, Decimal.zero.scale_le⟩

def tiedLevels : List PriceLevel := [
  ⟨⟨false, 4, 1, by decide, sixTenths.scale_le⟩, fifty⟩,
  ⟨sixTenths, fifty⟩,
  ⟨sixTenths, fifty⟩]

theorem exact_tiedLevels : Exact .buy 0 tiedLevels := by
  norm_num [tiedLevels, fifty, sixTenths, Exact, PriceLevel.worth, Decimal.toRat, Decimal.signed]
  have thirty := Decimal.writable_natCast 30 (by decide)
  exact ⟨Decimal.writable_natCast 20 (by decide), thirty,
    Decimal.writable_natCast 50 (by decide), thirty, Decimal.writable_natCast 80 (by decide)⟩

theorem ranked_tiedLevels : Ranked .buy tiedLevels where
  sizes := by
    simp [tiedLevels, fifty, Decimal.toRat, Decimal.signed]
  bestFirst := by
    norm_num [tiedLevels, fifty, sixTenths, Side.accepts, Decimal.toRat, Decimal.signed]

theorem marketPrice_clears_tiedLevels :
    Exact .buy 0 tiedLevels ∧ 0 < fifty.toRat ∧ Ranked .buy tiedLevels ∧
      (∀ tif, marketPrice .buy tiedLevels fifty tif = .ok sixTenths) ∧
      Clears .buy fifty.toRat tiedLevels sixTenths ∧
      fifty.toRat ≤ depth .buy tiedLevels := by
  have positive : 0 < fifty.toRat := by norm_num [fifty, Decimal.toRat, Decimal.signed]
  have priced : marketPrice .buy tiedLevels fifty .fillOrKill = .ok sixTenths :=
    Result.eq_ok_of_toOption (by decide +kernel)
  have cleared := (marketPrice_clears exact_tiedLevels).2.2.2 positive ranked_tiedLevels
  obtain ⟨every, clears⟩ := cleared.2 sixTenths priced
  exact ⟨exact_tiedLevels, positive, ranked_tiedLevels, every, clears, cleared.1.1 ⟨_, priced⟩⟩

end PriceLevel

end VenueSigner
