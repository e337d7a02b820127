import QuantTrade.MarketData.BookBuilder
import QuantTrade.MarketData.Normalizer

/-!
# From a depth message to the snapshot

A depth message passes three clamps: the parser and the snapshot keep at most 5 levels a side, the
book at most 20.  The snapshot after the message shows its first levels, whatever the book held
before, and the loops that copy the levels stay inside their arrays (`depth_roundTrip`).
-/

namespace QuantTrade

open ByteWindow (window Holds)
open Transition (run)

/-- The loop of `apply_depth` over a side, where an index outside of an array makes it fail. -/
def writeLevels? (levels : Vector PriceLevel maxLevels) (source : Vector PriceLevel marketDepth)
    (n : ℕ) : Option (Vector PriceLevel maxLevels) :=
  (List.range n).foldlM (fun levels i => do
    let level ← source[i]?
    if hi : i < maxLevels then some (levels.set i level hi) else none) levels

/-- The first levels of a side of a message, by their prices and quantities, and zeros behind
them. -/
def firstLevels (n : ℕ) (source : Vector WireDepthLevel marketDepth) :
    Vector PriceLevel marketDepth :=
  Vector.ofFn fun i =>
    if i.val < n then { price := (source.get i).price.toInt, qty := (source.get i).qty.toInt }
    else { price := 0, qty := 0 }

/-- What a snapshot shows of a depth message. -/
def WireDepth.shown (w : WireDepth) : DepthEvent where
  tsNs := 0
  instrumentId := w.instrumentId.toNat
  bidLevels := min w.bidLevels.toNat marketDepth
  askLevels := min w.askLevels.toNat marketDepth
  bids := firstLevels (min w.bidLevels.toNat marketDepth) w.bids
  asks := firstLevels (min w.askLevels.toNat marketDepth) w.asks
  bidLevels_le := Nat.min_le_right _ _
  askLevels_le := Nat.min_le_right _ _

/-! ## The loops -/

lemma getElem_writeLevels (levels : Vector PriceLevel maxLevels)
    (source : Vector PriceLevel marketDepth) {n : ℕ} (hn : n ≤ marketDepth) {i : ℕ}
    (hi : i < maxLevels) :
    (writeLevels levels source n hn)[i] =
      if h : i < n then source.get ⟨i, h.trans_le hn⟩ else levels.get ⟨i, hi⟩ := by
  rw [writeLevels, Vector.getElem_ofFn]

/-- A level behind the ones already written. -/
lemma writeLevels_succ (levels : Vector PriceLevel maxLevels)
    (source : Vector PriceLevel marketDepth) {n : ℕ} (hn : n + 1 ≤ marketDepth) :
    writeLevels levels source (n + 1) hn =
      (writeLevels levels source n (Nat.le_of_succ_le hn)).set n (source.get ⟨n, hn⟩)
        (hn.trans (by decide)) := by
  apply Vector.ext
  intro i hi
  rw [Vector.getElem_set, getElem_writeLevels, getElem_writeLevels]
  by_cases hin : n = i
  · subst hin
    rw [dif_pos (Nat.lt_succ_self n), if_pos rfl]
  · rw [if_neg hin]
    by_cases hlt : i < n
    · have hsucc : i < n + 1 := hlt.trans (Nat.lt_succ_self n)
      rw [dif_pos hsucc, dif_pos hlt]
    · have hsucc : ¬i < n + 1 := by omega
      rw [dif_neg hsucc, dif_neg hlt]

/-- The loop stays inside the arrays as long as the event counts its levels right. -/
lemma writeLevels?_eq (levels : Vector PriceLevel maxLevels)
    (source : Vector PriceLevel marketDepth) {n : ℕ} (hn : n ≤ marketDepth) :
    writeLevels? levels source n = some (writeLevels levels source n hn) := by
  induction n with
  | zero =>
    have hnone : writeLevels levels source 0 hn = levels := by
      apply Vector.ext
      intro i hi
      simp [writeLevels, Vector.get]
    rw [hnone]
    rfl
  | succ n ih =>
    have hsource : source[n]? = some (source.get ⟨n, hn⟩) := Vector.getElem?_eq_getElem hn
    have hinside : n < maxLevels := hn.trans (by decide)
    have hfirst := ih (Nat.le_of_succ_le hn)
    unfold writeLevels? at hfirst ⊢
    rw [List.range_succ, List.foldlM_append, hfirst, writeLevels_succ]
    simp [hsource, hinside]

/-- The snapshot of a side reads back what the loop wrote. -/
lemma readLevels_writeLevels (levels : Vector PriceLevel maxLevels)
    (source : Vector WireDepthLevel marketDepth) {n : ℕ} (hn : n ≤ marketDepth) :
    readLevels (writeLevels levels (Normalizer.copyLevels n source) n hn) n =
      Normalizer.copyLevels n source := by
  apply Vector.ext
  intro i hi
  have hinside : i < maxLevels := hi.trans (by decide)
  rw [readLevels, Vector.getElem_ofFn]
  by_cases hlt : i < n
  · rw [if_pos hlt]
    exact (getElem_writeLevels levels _ hn hinside).trans (dif_pos hlt)
  · rw [if_neg hlt, Normalizer.copyLevels, Vector.getElem_ofFn, if_neg hlt]

namespace Normalizer

lemma clampLevels_eq_min (levels : UInt8) : clampLevels levels = min levels.toNat marketDepth := by
  unfold clampLevels
  split <;> omega

/-- The parser copies the price and the quantity of each level that counts. -/
lemma copyLevels_eq (n : ℕ) (source : Vector WireDepthLevel marketDepth) :
    copyLevels n source = firstLevels n source := by
  rw [copyLevels, firstLevels]
  simp only [WireDepthLevel.level_eq]

/-- The event of a depth message. -/
def depthEvent (w : WireDepth) : DepthEvent where
  tsNs := w.exchangeTsNs.toNat
  instrumentId := w.instrumentId.toNat
  bidLevels := clampLevels w.bidLevels
  askLevels := clampLevels w.askLevels
  bids := copyLevels (clampLevels w.bidLevels) w.bids
  asks := copyLevels (clampLevels w.askLevels) w.asks
  bidLevels_le := clampLevels_le _
  askLevels_le := clampLevels_le _

/-- The event has the fields of the message: those that a snapshot shows, and the time. -/
lemma depthEvent_eq (w : WireDepth) :
    depthEvent w = { w.shown with tsNs := w.exchangeTsNs.toNat } := by
  rw [depthEvent, DepthEvent.mk.injEq]
  refine ⟨rfl, rfl, clampLevels_eq_min _, clampLevels_eq_min _, ?_, ?_⟩
  · rw [copyLevels_eq, clampLevels_eq_min]
    rfl
  · rw [copyLevels_eq, clampLevels_eq_min]
    rfl

/-- What `parse_internal_depth` makes of the bytes. -/
lemma parseInternalDepth_eq (mem : ℕ → UInt8) (buf len : ℕ) :
    parseInternalDepth mem buf len =
      if len < sizeofWireDepth then none
      else if (WireDepth.ofBytes (window mem buf sizeofWireDepth)).magic ≠ wireMagic then none
      else if (WireDepth.ofBytes (window mem buf sizeofWireDepth)).msgType ≠ wireDepth then none
      else some (depthEvent (WireDepth.ofBytes (window mem buf sizeofWireDepth))) :=
  rfl

/-- A depth message is parsed into its event, whatever the exchange. -/
lemma parseDepth_of_holds {mem : ℕ → UInt8} {buf len : ℕ} {w : WireDepth}
    (hw : (WireMsg.depth w).WellFormed) (hmem : Holds mem buf w.bytes)
    (hlen : sizeofWireDepth ≤ len) (exchange : ExchangeType) :
    parseDepth mem buf len exchange = some (depthEvent w) := by
  obtain ⟨hmagic, htype⟩ := hw
  have hwindow : window mem buf sizeofWireDepth = w.bytes := by
    rw [← w.length_bytes]
    exact hmem
  have hinternal : parseInternalDepth mem buf len = some (depthEvent w) := by
    rw [parseInternalDepth_eq, if_neg (by omega), hwindow, w.ofBytes_bytes,
      if_neg (not_not.mpr hmagic), if_neg (not_not.mpr htype)]
  cases exchange <;> exact hinternal

end Normalizer

namespace OrderBook

/-- The book takes over all levels that the parser kept. -/
lemma clampCount_clampLevels_le (count : UInt8) :
    clampCount (Normalizer.clampLevels count) ≤ marketDepth :=
  (clampCount_eq (Normalizer.clampLevels_le count)).trans_le (Normalizer.clampLevels_le count)

/-- The three clamps together are one: a side of the snapshot has the first levels of the message,
and zeros behind them. -/
lemma snapshot_side (levels : Vector PriceLevel maxLevels)
    (source : Vector WireDepthLevel marketDepth) (count : UInt8)
    (hn : clampCount (Normalizer.clampLevels count) ≤ marketDepth) :
    depthCount (clampCount (Normalizer.clampLevels count)) = min count.toNat marketDepth ∧
      readLevels
          (writeLevels levels (Normalizer.copyLevels (Normalizer.clampLevels count) source)
            (clampCount (Normalizer.clampLevels count)) hn)
          (depthCount (clampCount (Normalizer.clampLevels count))) =
        firstLevels (min count.toNat marketDepth) source := by
  have hle := Normalizer.clampLevels_le count
  have hdepth : depthCount (Normalizer.clampLevels count) = Normalizer.clampLevels count := by
    rw [depthCount_eq_min, min_eq_left hle]
  simp only [clampCount_eq hle, hdepth, readLevels_writeLevels]
  exact ⟨Normalizer.clampLevels_eq_min count, by
    rw [Normalizer.clampLevels_eq_min, Normalizer.copyLevels_eq]⟩

/-- The snapshot after a depth message shows that message. -/
lemma snapshotDepth_applyDepth {b : OrderBook} {w : WireDepth}
    (hid : b.instrumentId = w.instrumentId.toNat) :
    (b.applyDepth (Normalizer.depthEvent w)).snapshotDepth = w.shown := by
  have hbids := snapshot_side b.bids w.bids w.bidLevels (clampCount_clampLevels_le _)
  have hasks := snapshot_side b.asks w.asks w.askLevels (clampCount_clampLevels_le _)
  rw [snapshotDepth, WireDepth.shown, DepthEvent.mk.injEq]
  refine ⟨rfl, hid, hbids.1, hasks.1, hbids.2, hasks.2⟩

end OrderBook

namespace BookBuilder

/-- A call on the book of an instrument replaces this book only. -/
lemma find_update (s : BookBuilder) (id : ℕ) (f : OrderBook → OrderBook) (i : ℕ) :
    (s.update id f).find i = if i = id then some (f (s.get id)) else s.find i := by
  rw [find, books_update]
  split_ifs with hi
  · rw [hi, AList.lookup_insert]
  · rw [AList.lookup_insert_ne hi, find]

/-- The book of an instrument carries its id. -/
lemma instrumentId_get_run (es : List FeedEvent) (id : ℕ) :
    ((run onEvent init es).get id).instrumentId = id := by
  rw [get_run, OrderBook.instrumentId_run]
  rfl

end BookBuilder

/-- **Depth round trip.**  A depth message, parsed and entered in any books that events have made,
is what the snapshot of its instrument then shows: its first levels, at most `MARKET_DEPTH` a side,
and zeros behind them.  The loops of `apply_depth` find each level inside the arrays, and the books
of the other instruments stay as they are. -/
theorem depth_roundTrip (es : List FeedEvent) {w : WireDepth} (hw : (WireMsg.depth w).WellFormed)
    {mem : ℕ → UInt8} {buf : ℕ} (hmem : Holds mem buf w.bytes) (exchange : ExchangeType) :
    ∃ e b, Normalizer.parseDepth mem buf w.bytes.length exchange = some e ∧
      ((run BookBuilder.onEvent .init es).onDepth e).find w.instrumentId.toNat = some b ∧
      b.snapshotDepth = w.shown ∧
      writeLevels? ((run BookBuilder.onEvent .init es).get w.instrumentId.toNat).bids e.bids
        (OrderBook.clampCount e.bidLevels) = some b.bids ∧
      writeLevels? ((run BookBuilder.onEvent .init es).get w.instrumentId.toNat).asks e.asks
        (OrderBook.clampCount e.askLevels) = some b.asks ∧
      ∀ id, id ≠ w.instrumentId.toNat →
        ((run BookBuilder.onEvent .init es).onDepth e).find id =
          (run BookBuilder.onEvent .init es).find id := by
  have hid := BookBuilder.instrumentId_get_run es w.instrumentId.toNat
  refine ⟨Normalizer.depthEvent w,
    ((run BookBuilder.onEvent .init es).get w.instrumentId.toNat).applyDepth
      (Normalizer.depthEvent w),
    Normalizer.parseDepth_of_holds hw hmem w.length_bytes.ge exchange, ?_,
    OrderBook.snapshotDepth_applyDepth hid,
    writeLevels?_eq _ _ (OrderBook.clampCount_clampLevels_le _),
    writeLevels?_eq _ _ (OrderBook.clampCount_clampLevels_le _), ?_⟩
  · rw [BookBuilder.onDepth, BookBuilder.find_update]
    exact if_pos rfl
  · intro id hne
    rw [BookBuilder.onDepth, BookBuilder.find_update]
    exact if_neg hne

/-- A depth message that counts 255 bids and 2 offers. -/
def uncountedBids : WireDepth where
  magic := wireMagic
  msgType := wireDepth
  bidLevels := 255
  askLevels := 2
  pad := 0
  instrumentId := 1
  exchangeTsNs := 7
  bids := #v[⟨100, 1⟩, ⟨99, 2⟩, ⟨98, 3⟩, ⟨97, 4⟩, ⟨96, 5⟩]
  asks := #v[⟨101, 1⟩, ⟨102, 2⟩, ⟨103, 3⟩, ⟨104, 4⟩, ⟨105, 5⟩]

/-- A quote for the same instrument. -/
def earlierQuote : FeedEvent :=
  .bbo { instrumentId := 1, bidPx := 90, askPx := 95 }

/-- After a quote, the message with 255 bids is shown with 5 of them and 2 offers. -/
theorem depth_roundTrip_uncountedBids :
    ∃ e b, Normalizer.parseDepth (fun i => uncountedBids.bytes.getD i 0) 0
        uncountedBids.bytes.length .internal = some e ∧
      ((run BookBuilder.onEvent .init [earlierQuote]).onDepth e).find 1 = some b ∧
      b.snapshotDepth.bids.toList = [⟨100, 1⟩, ⟨99, 2⟩, ⟨98, 3⟩, ⟨97, 4⟩, ⟨96, 5⟩] ∧
      b.snapshotDepth.asks.toList = [⟨101, 1⟩, ⟨102, 2⟩, ⟨0, 0⟩, ⟨0, 0⟩, ⟨0, 0⟩] := by
  obtain ⟨e, b, hparse, hfind, hshown, -⟩ := depth_roundTrip [earlierQuote] (w := uncountedBids)
    (by decide) (ByteWindow.holds_getD _ 0) .internal
  exact ⟨e, b, hparse, hfind, by rw [hshown]; decide, by rw [hshown]; decide⟩

end QuantTrade
