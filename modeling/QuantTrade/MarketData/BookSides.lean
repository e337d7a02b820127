import QuantTrade.MarketData.BookBuilder

/-!
# The sides of a book

The levels of a side, from the first to the last valid one, are meant to be sorted by price, the
best first.  A depth update replaces a side.  A quote replaces the first level only, so it keeps a
side sorted exactly when its price is better than that of the second level (`sorted_iff`).
-/

namespace QuantTrade

open Transition (run Admissible)

/-- The levels by descending price. -/
def Descending (levels : List PriceLevel) : Prop :=
  levels.Pairwise fun l l' => l'.price < l.price

/-- The levels by ascending price. -/
def Ascending (levels : List PriceLevel) : Prop :=
  levels.Pairwise fun l l' => l.price < l'.price

instance : DecidablePred Descending :=
  fun _ => inferInstanceAs (Decidable (List.Pairwise _ _))

instance : DecidablePred Ascending :=
  fun _ => inferInstanceAs (Decidable (List.Pairwise _ _))

namespace DepthEvent

/-- The valid bids. -/
def bidSide (d : DepthEvent) : List PriceLevel :=
  d.bids.toList.take d.bidLevels

/-- The valid offers. -/
def askSide (d : DepthEvent) : List PriceLevel :=
  d.asks.toList.take d.askLevels

/-- Both sides start with the best price and get strictly worse. -/
def Sorted (d : DepthEvent) : Prop :=
  Descending d.bidSide ∧ Ascending d.askSide

instance : DecidablePred Sorted :=
  fun _ => inferInstanceAs (Decidable (_ ∧ _))

end DepthEvent

namespace OrderBook

/-- The valid bids. -/
def bidSide (b : OrderBook) : List PriceLevel :=
  b.bids.toList.take b.bidCount

/-- The valid offers. -/
def askSide (b : OrderBook) : List PriceLevel :=
  b.asks.toList.take b.askCount

/-- Both sides start with the best price and get strictly worse. -/
def Sorted (b : OrderBook) : Prop :=
  Descending b.bidSide ∧ Ascending b.askSide

instance : DecidablePred Sorted :=
  fun _ => inferInstanceAs (Decidable (_ ∧ _))

/-- A quote has a better price than the second level of each side that has one. -/
def Keeps (b : OrderBook) : FeedEvent → Prop
  | .bbo e =>
    (∀ l ∈ b.bidSide[1]?, l.price < e.bidPx) ∧ ∀ l ∈ b.askSide[1]?, e.askPx < l.price
  | .depth _ => True

instance (b : OrderBook) : DecidablePred b.Keeps
  | .bbo _ => inferInstanceAs (Decidable (_ ∧ _))
  | .depth _ => .isTrue trivial

end OrderBook

/-- A quote with valid prices, or a depth update whose own levels are sorted. -/
def FeedEvent.WellFormed : FeedEvent → Prop
  | bbo e => e.isValidBbo = true
  | depth e => e.Sorted

instance : DecidablePred FeedEvent.WellFormed
  | .bbo e => inferInstanceAs (Decidable (e.isValidBbo = true))
  | .depth e => inferInstanceAs (Decidable e.Sorted)

/-! ## What the events make of a side -/

/-- Writing the first level makes it the first of the side and leaves the others. -/
lemma take_toList_set_zero {n : ℕ} (levels : Vector PriceLevel n) (hn : 0 < n) (l : PriceLevel)
    (count : ℕ) :
    (levels.set 0 l hn).toList.take (if count = 0 then 1 else count) =
      l :: (levels.toList.take count).tail := by
  rw [Vector.toList_set]
  cases hlevels : levels.toList with
  | nil =>
    have hlength := levels.length_toList
    rw [hlevels, List.length_nil] at hlength
    omega
  | cons x xs =>
    rw [List.set_cons_zero]
    cases count with
    | zero => simp
    | succ count => simp

/-- The levels that the loop overwrites are those of the source. -/
lemma take_toList_writeLevels (levels : Vector PriceLevel maxLevels)
    (source : Vector PriceLevel marketDepth) {n : ℕ} (hn : n ≤ marketDepth) :
    (writeLevels levels source n hn).toList.take n = source.toList.take n := by
  apply List.ext_getElem
  · simp only [List.length_take, Vector.length_toList]
    have hdepth : marketDepth ≤ maxLevels := by decide
    omega
  · intro i hi hi'
    have hlt : i < n := by
      rw [List.length_take] at hi
      omega
    simp [writeLevels, hlt, Vector.get]

/-- The levels that the loop copies are those of the book. -/
lemma take_toList_readLevels (levels : Vector PriceLevel maxLevels) (n : ℕ) :
    (readLevels levels n).toList.take n = (levels.toList.take n).take marketDepth := by
  apply List.ext_getElem
  · simp only [List.length_take, Vector.length_toList]
    have hdepth : marketDepth ≤ maxLevels := by decide
    omega
  · intro i hi hi'
    have hlt : i < n := by
      rw [List.length_take] at hi
      omega
    simp [readLevels, hlt, Vector.get]

namespace OrderBook

/-- A side after a depth update. -/
lemma take_toList_clampCount (levels : Vector PriceLevel maxLevels)
    (source : Vector PriceLevel marketDepth) {count : ℕ} (hcount : count ≤ marketDepth) :
    (writeLevels levels source (clampCount count)
        ((clampCount_eq hcount).trans_le hcount)).toList.take (clampCount count) =
      source.toList.take count := by
  rw [take_toList_writeLevels, clampCount_eq hcount]

/-- A side of the snapshot. -/
lemma take_toList_depthCount (levels : Vector PriceLevel maxLevels) (count : ℕ) :
    (readLevels levels (depthCount count)).toList.take (depthCount count) =
      (levels.toList.take count).take marketDepth := by
  have hcount : depthCount count = min count marketDepth := depthCount_eq_min count
  rw [take_toList_readLevels, hcount, List.take_take, List.take_take]
  congr 1
  omega

variable (b : OrderBook)

lemma bidSide_applyBbo (e : BBOEvent) :
    (b.applyBbo e).bidSide = ⟨e.bidPx, e.bidQty⟩ :: b.bidSide.tail :=
  take_toList_set_zero b.bids (by decide) _ _

lemma askSide_applyBbo (e : BBOEvent) :
    (b.applyBbo e).askSide = ⟨e.askPx, e.askQty⟩ :: b.askSide.tail :=
  take_toList_set_zero b.asks (by decide) _ _

lemma bidSide_applyDepth (e : DepthEvent) : (b.applyDepth e).bidSide = e.bidSide :=
  take_toList_clampCount b.bids e.bids e.bidLevels_le

lemma askSide_applyDepth (e : DepthEvent) : (b.applyDepth e).askSide = e.askSide :=
  take_toList_clampCount b.asks e.asks e.askLevels_le

/-- The snapshot shows the first levels of the sides. -/
lemma bidSide_snapshotDepth : b.snapshotDepth.bidSide = b.bidSide.take marketDepth :=
  take_toList_depthCount b.bids b.bidCount

lemma askSide_snapshotDepth : b.snapshotDepth.askSide = b.askSide.take marketDepth :=
  take_toList_depthCount b.asks b.askCount

/-- The snapshot of a sorted book is sorted. -/
lemma sorted_snapshotDepth {b : OrderBook} (h : b.Sorted) : b.snapshotDepth.Sorted := by
  rw [DepthEvent.Sorted, bidSide_snapshotDepth, askSide_snapshotDepth]
  exact ⟨List.Pairwise.sublist (List.take_sublist ..) h.1,
    List.Pairwise.sublist (List.take_sublist ..) h.2⟩

end OrderBook

/-! ## Sorted sides -/

/-- A list with a new first element stays sorted exactly when that element may stand before the
second one. -/
lemma pairwise_cons_tail_iff {α : Type} {r : α → α → Prop}
    (htrans : ∀ {x y z}, r x y → r y z → r x z) {xs : List α} (hxs : xs.Pairwise r) (x : α) :
    (x :: xs.tail).Pairwise r ↔ ∀ y ∈ xs[1]?, r x y := by
  cases xs with
  | nil => simp
  | cons a ys =>
    cases ys with
    | nil => simp
    | cons b ys =>
      have htail : (b :: ys).Pairwise r := (List.pairwise_cons.mp hxs).2
      simp only [List.tail_cons, List.getElem?_cons_succ, List.getElem?_cons_zero, Option.mem_def,
        Option.some.injEq, forall_eq']
      constructor
      · intro hsorted
        exact (List.pairwise_cons.mp hsorted).1 b List.mem_cons_self
      · intro hb
        refine List.pairwise_cons.mpr ⟨?_, htail⟩
        intro y hy
        rcases List.mem_cons.mp hy with rfl | hy
        · exact hb
        · exact htrans hb ((List.pairwise_cons.mp htail).1 y hy)

namespace OrderBook

lemma sorted_init (id : ℕ) : (init id).Sorted := by
  simp [Sorted, bidSide, askSide, init, Descending, Ascending]

/-- A well-formed event keeps a book sorted exactly when a quote is better than the second level. -/
lemma sorted_apply_iff {b : OrderBook} (h : b.Sorted) {e : FeedEvent} (he : e.WellFormed) :
    (b.apply e).Sorted ↔ b.Keeps e := by
  cases e with
  | bbo e =>
    rw [apply, Sorted, bidSide_applyBbo, askSide_applyBbo]
    apply and_congr
    · exact pairwise_cons_tail_iff (fun hxy hyz => hyz.trans hxy) h.1 _
    · exact pairwise_cons_tail_iff (fun hxy hyz => hxy.trans hyz) h.2 _
  | depth e =>
    rw [apply, Sorted, bidSide_applyDepth, askSide_applyDepth]
    exact iff_of_true he trivial

/-- **Sorted sides.**  For every sequence of valid quotes and sorted depth updates, the book and its
snapshot are sorted after every part of the sequence exactly when every quote has better prices than
the second level of the book at its time. -/
theorem sorted_iff (id : ℕ) (es : List FeedEvent) (hes : ∀ e ∈ es, e.WellFormed) :
    (∀ before, before <+: es →
        (run apply (init id) before).Sorted ∧ (run apply (init id) before).snapshotDepth.Sorted) ↔
      Admissible apply Keeps (init id) es := by
  have hshown (b : OrderBook) (h : b.Sorted) : b.Sorted ∧ b.snapshotDepth.Sorted :=
    ⟨h, sorted_snapshotDepth h⟩
  have hformed : Admissible apply (fun _ e => e.WellFormed) (init id) es :=
    Transition.admissible_of_forall apply (fun e he _ => hes e he) _
  refine Transition.forall_prefix_iff_admissible hshown ?_ ?_ hformed (sorted_init id)
  · intro b e he hkeeps h
    exact (sorted_apply_iff h he).mpr hkeeps
  · intro b e he hkeeps h hsorted
    exact hkeeps ((sorted_apply_iff h he).mp hsorted.1)

/-- A depth update with bids at 100, 99, 98 and offers at 102, 103. -/
def threeBids : FeedEvent :=
  .depth
    { tsNs := 0, instrumentId := 1, bidLevels := 3, askLevels := 2
      bids := #v[⟨100, 10⟩, ⟨99, 10⟩, ⟨98, 10⟩, {}, {}]
      asks := #v[⟨102, 10⟩, ⟨103, 10⟩, {}, {}, {}]
      bidLevels_le := by decide
      askLevels_le := by decide }

/-- A quote between the levels keeps the book sorted. -/
theorem sorted_iff_quoteBetween :
    (∀ before, before <+: [threeBids, .bbo { instrumentId := 1, bidPx := 101, askPx := 102 }] →
        (run apply (init 1) before).Sorted ∧ (run apply (init 1) before).snapshotDepth.Sorted) ↔
      Admissible apply Keeps (init 1)
        [threeBids, .bbo { instrumentId := 1, bidPx := 101, askPx := 102 }] :=
  sorted_iff 1 _ (by decide)

/-- The best bid falls to 97 and stands before the levels at 99 and 98. -/
theorem not_sorted_quoteBelow :
    ¬∀ (id : ℕ) (es : List FeedEvent), (∀ e ∈ es, e.WellFormed) → ∀ before, before <+: es →
      (run apply (init id) before).Sorted ∧ (run apply (init id) before).snapshotDepth.Sorted := by
  intro h
  have hes : ∀ e ∈ [threeBids, .bbo { instrumentId := 1, bidPx := 97, askPx := 101 }],
      e.WellFormed := by decide
  exact absurd (h 1 _ hes _ (List.prefix_refl _)).1 (by decide)

end OrderBook

end QuantTrade
