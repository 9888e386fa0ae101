import VenueSigner.Proofs.ClearingPrice
/-!
Two walks over one book. The sums are the same, rounded or not, and only what they are compared with
differs: a walk to a smaller target ends no later than one to a larger. So whenever the larger
target has a price, the smaller one has a price too, and with the best levels first it is no worse.
-/

namespace VenueSigner

namespace PriceLevel

open OrderBuilder (sixTenths spendEighty twoLevels)

variable {side : Side} {target a b sum price : Decimal} {levels passed rest : List PriceLevel}
  {l m : PriceLevel}

def addTo (side : Side) (sum : Decimal) (l : PriceLevel) : Result Decimal := do
  let filled ← l.contribution side
  match sum.add? filled with
  | none => throw (.depthOverflow sum filled)
  | some total => return total

def total (side : Side) (sum : Decimal) (levels : List PriceLevel) : Result Decimal :=
  levels.foldlM (addTo side) sum

theorem total_cons_eq_ok_iff {x : Decimal} : total side sum (l :: levels) = .ok x ↔
    ∃ next, addTo side sum l = .ok next ∧ total side next levels = .ok x := by
  rw [total, List.foldlM_cons, Result.bind_eq_ok]
  rfl

theorem reaching?_step (target sum : Decimal) (l : PriceLevel) (rest : List PriceLevel) :
    reaching? side target sum (l :: rest) =
      addTo side sum l >>= fun next =>
        if target.le next then .ok (some l.price) else reaching? side target next rest := by
  rw [reaching?, addTo]
  cases l.contribution side with
  | error e => rfl
  | ok filled =>
    simp only [bind, Except.bind]
    cases sum.add? filled with
    | none => rfl
    | some next => rfl

def Misses (side : Side) (target sum : Decimal) (levels : List PriceLevel) : Prop :=
  ∀ before, before <+: levels → before ≠ [] →
    ∃ x, total side sum before = .ok x ∧ target.le x = false

/-- The walk ends at a level: the sum reaches the target there, and is short of it after each of the
levels before. -/
structure StopsAt (side : Side) (target sum : Decimal) (passed : List PriceLevel)
    (l : PriceLevel) : Prop where
  misses : Misses side target sum passed
  reached : ∃ x, total side sum (passed ++ [l]) = .ok x ∧ target.le x = true

theorem misses_nil (side : Side) (target sum : Decimal) : Misses side target sum [] := by
  intro before none some
  exact absurd (List.prefix_nil.1 none) some

theorem total_singleton_eq_ok_iff {x : Decimal} :
    total side sum [l] = .ok x ↔ addTo side sum l = .ok x := by
  rw [total_cons_eq_ok_iff]
  constructor
  · rintro ⟨next, added, same⟩
    rwa [← Except.ok.inj same]
  · intro added
    exact ⟨x, added, rfl⟩

theorem misses_cons_iff : Misses side target sum (l :: levels) ↔
    ∃ next, addTo side sum l = .ok next ∧ target.le next = false ∧
      Misses side target next levels := by
  constructor
  · intro misses
    obtain ⟨next, first, short⟩ :=
      misses [l] (List.prefix_append [l] levels) (List.cons_ne_nil l [])
    rw [total_singleton_eq_ok_iff] at first
    refine ⟨next, first, short, fun before part _ => ?_⟩
    obtain ⟨x, sums, short⟩ :=
      misses (l :: before) (List.cons_prefix_cons.2 ⟨rfl, part⟩) (List.cons_ne_nil l _)
    obtain ⟨next', first', sums⟩ := total_cons_eq_ok_iff.1 sums
    obtain rfl : next = next' := Except.ok.inj (first.symm.trans first')
    exact ⟨x, sums, short⟩
  · rintro ⟨next, first, short, misses⟩ before part some
    obtain none | ⟨before', rfl, later⟩ := List.prefix_cons_iff.1 part
    · contradiction
    · cases before' with
      | nil => exact ⟨next, total_singleton_eq_ok_iff.2 first, short⟩
      | cons m before' =>
        obtain ⟨x, sums, short⟩ := misses _ later (List.cons_ne_nil _ _)
        exact ⟨x, total_cons_eq_ok_iff.2 ⟨next, first, sums⟩, short⟩

theorem stopsAt_nil_iff : StopsAt side target sum [] l ↔
    ∃ next, addTo side sum l = .ok next ∧ target.le next = true := by
  simp only [← total_singleton_eq_ok_iff]
  exact ⟨fun stops => stops.reached, fun reached => ⟨misses_nil side target sum, reached⟩⟩

theorem stopsAt_cons_iff : StopsAt side target sum (m :: passed) l ↔
    ∃ next, addTo side sum m = .ok next ∧ target.le next = false ∧
      StopsAt side target next passed l := by
  constructor
  · rintro ⟨misses, x, sums, reached⟩
    obtain ⟨next, first, short, misses⟩ := misses_cons_iff.1 misses
    obtain ⟨next', first', sums⟩ := total_cons_eq_ok_iff.1 sums
    obtain rfl : next = next' := Except.ok.inj (first.symm.trans first')
    exact ⟨next, first, short, misses, x, sums, reached⟩
  · rintro ⟨next, first, short, misses, x, sums, reached⟩
    exact ⟨misses_cons_iff.2 ⟨next, first, short, misses⟩, x,
      total_cons_eq_ok_iff.2 ⟨next, first, sums⟩, reached⟩

theorem reaching?_eq_some_iff : reaching? side target sum levels = .ok (some price) ↔
    ∃ passed l, passed ++ [l] <+: levels ∧ StopsAt side target sum passed l ∧ l.price = price := by
  -- the sum is the state of the walk: the other levels are walked from the next one
  induction levels generalizing sum with
  | nil => simp [reaching?]
  | cons m rest ih =>
    rw [reaching?_step, Result.bind_eq_ok]
    constructor
    · rintro ⟨next, added, h⟩
      cases reached : target.le next with
      | true =>
        rw [if_pos reached] at h
        refine ⟨[], m, List.prefix_append [m] rest, stopsAt_nil_iff.2 ⟨next, added, reached⟩, ?_⟩
        exact Option.some.inj (Except.ok.inj h)
      | false =>
        rw [if_neg (by rw [reached]; decide)] at h
        obtain ⟨passed, l, listed, stops, priced⟩ := ih.1 h
        exact ⟨m :: passed, l, List.cons_prefix_cons.2 ⟨rfl, listed⟩,
          stopsAt_cons_iff.2 ⟨next, added, reached, stops⟩, priced⟩
    · rintro ⟨passed, l, listed, stops, priced⟩
      cases passed with
      | nil =>
        obtain ⟨rfl, _⟩ := List.cons_prefix_cons.1 listed
        obtain ⟨next, added, reached⟩ := stopsAt_nil_iff.1 stops
        refine ⟨next, added, ?_⟩
        rw [if_pos reached, ← priced]
      | cons x passed =>
        obtain ⟨rfl, later⟩ := List.cons_prefix_cons.1 listed
        obtain ⟨next, added, short, stops⟩ := stopsAt_cons_iff.1 stops
        refine ⟨next, added, ?_⟩
        rw [if_neg (by rw [short]; decide)]
        exact ih.2 ⟨passed, l, later, stops, priced⟩

theorem reaching?_eq_none_iff :
    reaching? side target sum levels = .ok none ↔ Misses side target sum levels := by
  induction levels generalizing sum with
  | nil => exact iff_of_true rfl (misses_nil side target sum)
  | cons m rest ih =>
    rw [reaching?_step, Result.bind_eq_ok, misses_cons_iff]
    refine exists_congr fun next => and_congr_right fun _ => ?_
    cases short : target.le next with
    | true => simp
    | false => simp [ih]

/-- An order has the price of the level that its walk ends at. When the walk misses all levels, it
has that of the last one, unless it must be filled. -/
theorem marketPrice_eq_ok_iff {tif : TimeInForce} :
    marketPrice side levels target tif = .ok price ↔
      (∃ passed l, passed ++ [l] <+: levels ∧ StopsAt side target .zero passed l ∧
        l.price = price) ∨
      (tif ≠ .fillOrKill ∧ Misses side target .zero levels ∧
        ∃ last, levels.getLast? = some last ∧ last.price = price) := by
  rw [← reaching?_eq_some_iff, ← reaching?_eq_none_iff]
  cases listed : levels.getLast? with
  | none =>
    rw [List.getLast?_eq_none_iff] at listed
    subst listed
    exact iff_of_false nofun (by simp [reaching?])
  | some last =>
    simp only [marketPrice, listed, Result.bind_eq_ok]
    constructor
    · rintro ⟨found, walk, h⟩
      cases found with
      | some p =>
        rw [← Except.ok.inj h]
        exact .inl walk
      | none =>
        by_cases must : tif = .fillOrKill
        · rw [if_pos must] at h
          contradiction
        · rw [if_neg must] at h
          exact .inr ⟨must, walk, last, rfl, Except.ok.inj h⟩
    · rintro (walk | ⟨must, walk, last', same, priced⟩)
      · exact ⟨some price, walk, rfl⟩
      · obtain rfl := Option.some.inj same
        refine ⟨none, walk, ?_⟩
        rw [if_neg must, ← priced]
        rfl

theorem marketPrice_of_stopsAt (listed : passed ++ [l] <+: levels)
    (stops : StopsAt side target .zero passed l) (tif : TimeInForce) :
    marketPrice side levels target tif = .ok l.price :=
  marketPrice_eq_ok_iff.2 (.inl ⟨passed, l, listed, stops, rfl⟩)

theorem marketPrice_fillOrKill_iff : marketPrice side levels target .fillOrKill = .ok price ↔
    ∃ passed l, passed ++ [l] <+: levels ∧ StopsAt side target .zero passed l ∧
      l.price = price := by
  rw [marketPrice_eq_ok_iff]
  simp

/-- A walk to a smaller target ends no later than one to a larger. -/
theorem StopsAt.smaller (le : a.toRat ≤ b.toRat) (stops : StopsAt side b sum passed l) :
    ∃ passed' l', passed' ++ [l'] <+: passed ++ [l] ∧ StopsAt side a sum passed' l' := by
  induction passed generalizing sum with
  | nil =>
    obtain ⟨next, added, reached⟩ := stopsAt_nil_iff.1 stops
    rw [Decimal.le_iff] at reached
    exact ⟨[], l, List.prefix_refl [l], stopsAt_nil_iff.2
      ⟨next, added, (Decimal.le_iff a next).2 (le.trans reached)⟩⟩
  | cons m passed ih =>
    obtain ⟨next, added, _, stops⟩ := stopsAt_cons_iff.1 stops
    cases reached : a.le next with
    | true =>
      exact ⟨[], m, List.prefix_append [m] _, stopsAt_nil_iff.2 ⟨next, added, reached⟩⟩
    | false =>
      obtain ⟨passed', l', earlier, stops'⟩ := ih stops
      exact ⟨m :: passed', l', List.cons_prefix_cons.2 ⟨rfl, earlier⟩,
        stopsAt_cons_iff.2 ⟨next, added, reached, stops'⟩⟩

theorem Misses.smaller (misses : Misses side b sum levels) (a : Decimal) :
    Misses side a sum levels ∨
      ∃ passed l, passed ++ [l] <+: levels ∧ StopsAt side a sum passed l := by
  induction levels generalizing sum with
  | nil => exact .inl (misses_nil side a sum)
  | cons m rest ih =>
    obtain ⟨next, added, _, misses⟩ := misses_cons_iff.1 misses
    cases reached : a.le next with
    | true =>
      exact .inr ⟨[], m, List.prefix_append [m] rest, stopsAt_nil_iff.2 ⟨next, added, reached⟩⟩
    | false =>
      obtain misses | ⟨passed, l, listed, stops⟩ := ih misses
      · exact .inl (misses_cons_iff.2 ⟨next, added, reached, misses⟩)
      · exact .inr ⟨m :: passed, l, List.cons_prefix_cons.2 ⟨rfl, listed⟩,
          stopsAt_cons_iff.2 ⟨next, added, reached, stops⟩⟩

theorem accepts_of_prefix {part : List PriceLevel} {last : PriceLevel}
    (bestFirst : levels.Pairwise fun better l => side.accepts l.price.toRat better.price.toRat)
    (listed : part <+: levels) (ends : part.getLast? = some last) (mem : l ∈ part) :
    side.accepts last.price.toRat l.price.toRat = true := by
  obtain ⟨before, rfl⟩ := List.getLast?_eq_some_iff.1 ends
  have ordered := (List.pairwise_append.1 (bestFirst.sublist listed.sublist)).2.2
  obtain earlier | last' := List.mem_append.1 mem
  · exact ordered l earlier last List.mem_cons_self
  · rw [List.mem_singleton.1 last']
    exact side.accepts_refl last.price.toRat

/-- Asking a book for less is never worse. If the sum reaches a target at a level, it reaches a
smaller target there or before, and the price is that of the level for either target and any kind of
order. If an order for a target has a price, so has one of the same kind for a smaller target, at a
level that is no worse when the best come first. And what an order that must be filled pays, all
other orders for the target pay too. Sums may be rounded, and there may be none behind the level
where the walk ends. -/
theorem marketPrice_smaller (le : a.toRat ≤ b.toRat) :
    (∀ passed l, passed ++ [l] <+: levels → StopsAt side b .zero passed l →
      (∀ tif, marketPrice side levels b tif = .ok l.price) ∧
      ∃ passed' l', passed' ++ [l'] <+: passed ++ [l] ∧ StopsAt side a .zero passed' l' ∧
        ∀ tif, marketPrice side levels a tif = .ok l'.price) ∧
    (∀ tif price, marketPrice side levels b tif = .ok price →
      ∃ price', marketPrice side levels a tif = .ok price' ∧
        (levels.Pairwise (fun better l => side.accepts l.price.toRat better.price.toRat) →
          side.accepts price.toRat price'.toRat = true)) ∧
    ∀ target price, marketPrice side levels target .fillOrKill = .ok price →
      (∃ passed l, passed ++ [l] <+: levels ∧ StopsAt side target .zero passed l ∧
        l.price = price) ∧
      ∀ tif, marketPrice side levels target tif = .ok price := by
  refine ⟨fun passed l listed stops => ⟨marketPrice_of_stopsAt listed stops, ?_⟩, ?_, ?_⟩
  · obtain ⟨passed', l', earlier, stops'⟩ := stops.smaller le
    exact ⟨passed', l', earlier, stops', marketPrice_of_stopsAt (earlier.trans listed) stops'⟩
  · intro tif price priced
    obtain ⟨passed, l, listed, stops, rfl⟩ | ⟨must, misses, last, ends, rfl⟩ :=
      marketPrice_eq_ok_iff.1 priced
    · obtain ⟨passed', l', earlier, stops'⟩ := stops.smaller le
      refine ⟨l'.price, marketPrice_of_stopsAt (earlier.trans listed) stops' tif, ?_⟩
      intro bestFirst
      exact accepts_of_prefix bestFirst listed List.getLast?_concat
        (earlier.subset (List.mem_append_right passed' List.mem_cons_self))
    · obtain misses | ⟨passed', l', listed, stops'⟩ := misses.smaller a
      · refine ⟨last.price, marketPrice_eq_ok_iff.2 (.inr ⟨must, misses, last, ends, rfl⟩), ?_⟩
        exact fun _ => side.accepts_refl last.price.toRat
      · refine ⟨l'.price, marketPrice_of_stopsAt listed stops' tif, fun bestFirst => ?_⟩
        exact accepts_of_prefix bestFirst (List.prefix_refl levels) ends
          (listed.subset (List.mem_append_right passed' List.mem_cons_self))
  · intro target price priced
    obtain ⟨passed, l, listed, stops, rfl⟩ := marketPrice_fillOrKill_iff.1 priced
    exact ⟨⟨passed, l, listed, stops, rfl⟩, marketPrice_of_stopsAt listed stops⟩

theorem marketPrice_smaller_twoLevels :
    fifty.toRat ≤ spendEighty.amount.toRat ∧
      marketPrice .buy twoLevels spendEighty.amount .fillOrKill =
        .ok sixTenths ∧
      ∃ price, marketPrice .buy twoLevels fifty .fillOrKill = .ok price ∧
        Side.buy.accepts sixTenths.toRat price.toRat = true := by
  have le : fifty.toRat ≤ spendEighty.amount.toRat := by
    norm_num [fifty, spendEighty, Decimal.toRat, Decimal.signed]
  have priced : marketPrice .buy twoLevels spendEighty.amount
      .fillOrKill = .ok sixTenths :=
    Result.eq_ok_of_toOption (by decide +kernel)
  obtain ⟨price, cheaper, better⟩ := (marketPrice_smaller le).2.1 .fillOrKill sixTenths priced
  exact ⟨le, priced, price, cheaper, better OrderBuilder.listed_twoLevels.bestFirst⟩

end PriceLevel

end VenueSigner
