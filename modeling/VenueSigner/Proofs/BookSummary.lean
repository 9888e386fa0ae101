import VenueSigner.Market.Book
import VenueSigner.Proofs.Commitment
import VenueSigner.Proofs.DecimalText
import VenueSigner.Proofs.JsonText
import VenueSigner.Proofs.RecordOrder
/-!
The digest of an order book. What is hashed is the record of the book without its hash, in the order
of names, and no other book has that text: but for collisions the digest tells the market, the
token, the time and all levels, with every digit of their decimals.
-/

namespace VenueSigner

open Json (Tree Value)

theorem Decimal.head?_chars (d : Decimal) : d.chars.head? = some '-' ↔ d.negative = true := by
  obtain ⟨whole, fraction, nonempty, -, -, chars⟩ := d.exists_chars_eq
  obtain ⟨w, ws, rfl⟩ := List.exists_cons_of_ne_nil nonempty
  rw [chars]
  cases d.negative with
  | true => exact iff_of_true rfl rfl
  | false =>
    have noSign : w.toChar ≠ '-' := fun same => by
      have range := w.toChar_range
      simp [same] at range
    exact iff_of_false (fun h => noSign (Option.some.inj h)) nofun

theorem Decimal.text_injective {d e : Decimal} (h : d.text = e.text) : d = e := by
  have signs : d.negative = e.negative := by
    have chars : d.chars = e.chars := String.ofList_injective h
    rw [Bool.eq_iff_iff, ← d.head?_chars, ← e.head?_chars, chars]
  have plains : d.plain = e.plain := by
    rw [← Option.some.injEq, ← d.parse?_text, ← e.parse?_text, h]
  obtain ⟨negative, mantissa, scale, _, _⟩ := d
  obtain ⟨negative', mantissa', scale', _, _⟩ := e
  simp only [plain, mk.injEq] at plains
  simp only [mk.injEq]
  exact ⟨signs, plains.2⟩

theorem PriceLevel.toTree_injective {l k : PriceLevel} (h : l.toTree = k.toTree) : l = k := by
  obtain ⟨price, size⟩ := l
  obtain ⟨price', size'⟩ := k
  simp only [toTree, Tree.ofMembers, Decimal.toTree, Tree.ofText, List.map_cons, List.map_nil,
    Tree.record.injEq, List.cons.injEq, Prod.mk.injEq, Tree.text.injEq, Option.some.injEq,
    true_and, and_true] at h
  rw [Decimal.text_injective h.1, Decimal.text_injective h.2]

namespace OrderBook

open Tree (Stands)

theorem stands_levelsTree {depth : ℕ} (ls : List PriceLevel) :
    Stands (depth + 2) (levelsTree ls) := by
  refine Tree.stands_list (List.forall_mem_map.2 fun l _ => ?_)
  have sorted : Json.Sorted [("price", l.price.toTree), ("size", l.size.toTree)] := by
    have names : ["price", "size"].Pairwise (· < ·) := by decide
    exact Json.sorted_iff.2 names
  refine Tree.stands_ofMembers sorted ?_
  simp only [List.forall_mem_cons, List.not_mem_nil, false_imp_iff, implies_true, and_true]
  exact ⟨Tree.stands_ofText _, Tree.stands_ofText _⟩

def summaryMembers (b : OrderBook) : List (String × Tree) :=
  [("market", .ofText b.market), ("asset_id", .ofText b.assetId),
    ("timestamp", .ofText b.timestamp), ("bids", levelsTree b.bids), ("asks", levelsTree b.asks)]

theorem summary_eq (b : OrderBook) :
    b.summary = .ofMembers (Json.sortMembers b.summaryMembers) := by
  simp only [summary, summaryMembers, Json.sortMembers, Json.insertMember, List.foldl_cons,
    List.foldl_nil, String.reduceLT, String.reduceEq, if_true, if_false]

theorem filter_members (b : OrderBook) :
    (b.summaryMembers ++ hashTree b.hash).filter (·.1 != "hash") = b.summaryMembers := by
  cases b.hash <;> simp [summaryMembers, hashTree]

theorem exists_ofTree?_toTree (b : OrderBook) (depth : ℕ) :
    ∃ v, Value.ofTree? (depth + 3) b.toTree = some v ∧ (v.without "hash").toTree = b.summary := by
  have distinct : ((b.summaryMembers ++ hashTree b.hash).map (·.1)).Nodup := by
    have all : ["market", "asset_id", "timestamp", "bids", "asks", "hash"].Nodup := by decide
    cases b.hash with
    | none => exact all.sublist (List.sublist_append_left _ ["hash"])
    | some h => exact all
  have stand : ∀ m ∈ b.summaryMembers ++ hashTree b.hash, Stands (depth + 2) m.2 := by
    simp only [summaryMembers, List.cons_append, List.nil_append, List.forall_mem_cons]
    refine ⟨Tree.stands_ofText _, Tree.stands_ofText _, Tree.stands_ofText _, stands_levelsTree _,
      stands_levelsTree _, ?_⟩
    cases b.hash with
    | none => exact fun _ h => absurd h List.not_mem_nil
    | some h => exact List.forall_mem_singleton.2 (Tree.stands_ofText h)
  have left := Tree.exists_without distinct stand "hash"
  rwa [filter_members, ← summary_eq] at left

theorem levelsTree_injective {ls ks : List PriceLevel} (h : levelsTree ls = levelsTree ks) :
    ls = ks := by
  have injective : Function.Injective PriceLevel.toTree := fun _ _ => PriceLevel.toTree_injective
  exact List.map_injective_iff.2 injective (Tree.list.inj h)

/-- The summary tells all of a book but its hash. -/
theorem summary_eq_iff {b c : OrderBook} : b.summary = c.summary ↔
    b.market = c.market ∧ b.assetId = c.assetId ∧ b.timestamp = c.timestamp ∧
      b.bids = c.bids ∧ b.asks = c.asks := by
  constructor
  · intro h
    simp only [summary, Tree.ofMembers, Tree.ofText, List.map_cons, List.map_nil,
      Tree.record.injEq, List.cons.injEq, Prod.mk.injEq, Tree.text.injEq, Option.some.injEq,
      true_and, and_true] at h
    obtain ⟨asks, assetId, bids, market, timestamp⟩ := h
    exact ⟨market, assetId, timestamp, levelsTree_injective bids, levelsTree_injective asks⟩
  · rintro ⟨market, assetId, timestamp, bids, asks⟩
    rw [summary, summary, market, assetId, timestamp, bids, asks]

theorem summaryHash_eq_iff (b c : OrderBook) : b.summaryHash = c.summaryHash ↔
    Keccak.digestText b.summary.render = Keccak.digestText c.summary.render := by
  refine ⟨fun h => FixedBytes.ext (Hex.encodePrefixed_injective h), fun h => ?_⟩
  rw [summaryHash, summaryHash, h]

/-- What is hashed of a book is the text that its own record has without the hash, each record in it
in the order of its names. Two books have the same digest exactly when those texts collide or the
books are equal in all but the hash: in the texts, and in the levels one by one, where decimals are
equal in sign, digits and scale. -/
theorem summaryHash_commits (b : OrderBook) :
    (∃ v, Value.parse? b.toTree.render = some v ∧ (v.without "hash").Ordered ∧
      b.summary.render = (v.without "hash").render ∧
      b.summaryHash =
        Hex.encodePrefixed (Keccak.digestText (v.without "hash").render).bytes) ∧
    ∀ c : OrderBook, b.summaryHash = c.summaryHash ↔
      (b.market = c.market ∧ b.assetId = c.assetId ∧ b.timestamp = c.timestamp ∧
        b.bids = c.bids ∧ b.asks = c.asks) ∨
      Keccak.Collides [Bytes.ofText b.summary.render] [Bytes.ofText c.summary.render] := by
  constructor
  · obtain ⟨v, read, left⟩ := b.exists_ofTree?_toTree 124
    have parsed : Value.parse? b.toTree.render = some v := by
      rw [Value.parse?, Tree.parse?_render, Option.bind_some]
      exact read
    have text : b.summary.render = (v.without "hash").render := by rw [Value.render, left]
    have ordered := Value.ordered_of_ofTree? read
    exact ⟨v, parsed, ordered.without "hash", text, by rw [summaryHash, text]⟩
  · intro c
    rw [summaryHash_eq_iff]
    constructor
    · intro same
      by_cases free :
          Keccak.Collides [Bytes.ofText b.summary.render] [Bytes.ofText c.summary.render]
      · exact .inr free
      · have texts := Keccak.eq_of_digestText_eq free List.mem_cons_self List.mem_cons_self same
        exact .inl (summary_eq_iff.1 (Tree.render_injective texts))
    · rintro (equal | ⟨x, hx, y, hy, -, same⟩)
      · rw [summary_eq_iff.2 equal]
      · rw [List.mem_singleton.1 hx, List.mem_singleton.1 hy] at same
        exact same

end OrderBook

end VenueSigner
