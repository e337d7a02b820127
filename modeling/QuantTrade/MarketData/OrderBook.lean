import Mathlib.Algebra.Order.Ring.Int
import QuantTrade.MarketData.Types

/-!
# The order book

`OrderBook` of `src/market_data/order_book.{hpp,cpp}`, one call under its lock at a time.  A side is
an array of 20 levels and the number of those that are valid; a level behind that number keeps what
was written last.  What `snapshot_bbo`, `mid_price`, `spread` and `is_crossed` return depends on the
`top` of the book only (`readings_eq_iff`), and each event overwrites the top.
-/

namespace QuantTrade

/-- `MAX_LEVELS`. -/
def maxLevels : ℕ := 20

/-- The book of an instrument. -/
structure OrderBook where
  instrumentId : ℕ
  bidCount : ℕ
  askCount : ℕ
  bids : Vector PriceLevel maxLevels
  asks : Vector PriceLevel maxLevels
  bidCount_le : bidCount ≤ maxLevels
  askCount_le : askCount ≤ maxLevels
  deriving DecidableEq, Repr

lemma get_ofFn {α : Type} {n : ℕ} (f : Fin n → α) (i : Fin n) : (Vector.ofFn f).get i = f i :=
  Vector.getElem_ofFn i.isLt

/-- The loop that overwrites the first levels of a side. -/
def writeLevels (levels : Vector PriceLevel maxLevels) (source : Vector PriceLevel marketDepth)
    (n : ℕ) (hn : n ≤ marketDepth) : Vector PriceLevel maxLevels :=
  Vector.ofFn fun i =>
    if hi : i.val < n then source.get ⟨i.val, hi.trans_le hn⟩ else levels.get i

/-- The loop that copies the first levels of a side into an event that holds zeros. -/
def readLevels (levels : Vector PriceLevel maxLevels) (n : ℕ) : Vector PriceLevel marketDepth :=
  Vector.ofFn fun i => if i.val < n then levels.get (i.castLE (by decide)) else {}

namespace OrderBook

/-- A new book. -/
def init (id : ℕ) : OrderBook where
  instrumentId := id
  bidCount := 0
  askCount := 0
  bids := .replicate maxLevels {}
  asks := .replicate maxLevels {}
  bidCount_le := Nat.zero_le _
  askCount_le := Nat.zero_le _

/-- `apply_bbo`; the type of the event is not looked at. -/
def applyBbo (b : OrderBook) (e : BBOEvent) : OrderBook where
  instrumentId := b.instrumentId
  bidCount := if b.bidCount = 0 then 1 else b.bidCount
  askCount := if b.askCount = 0 then 1 else b.askCount
  bids := b.bids.set 0 ⟨e.bidPx, e.bidQty⟩ (by decide)
  asks := b.asks.set 0 ⟨e.askPx, e.askQty⟩ (by decide)
  bidCount_le := by
    split_ifs
    · decide
    · exact b.bidCount_le
  askCount_le := by
    split_ifs
    · decide
    · exact b.askCount_le

/-- The number of levels that `apply_depth` takes over. -/
def clampCount (levels : ℕ) : ℕ :=
  if levels ≤ maxLevels then levels else maxLevels

lemma clampCount_eq {levels : ℕ} (h : levels ≤ marketDepth) : clampCount levels = levels :=
  if_pos (h.trans (by decide))

/-- `apply_depth`. -/
def applyDepth (b : OrderBook) (e : DepthEvent) : OrderBook where
  instrumentId := b.instrumentId
  bidCount := clampCount e.bidLevels
  askCount := clampCount e.askLevels
  bids := writeLevels b.bids e.bids (clampCount e.bidLevels)
    ((clampCount_eq e.bidLevels_le).trans_le e.bidLevels_le)
  asks := writeLevels b.asks e.asks (clampCount e.askLevels)
    ((clampCount_eq e.askLevels_le).trans_le e.askLevels_le)
  bidCount_le := by
    rw [clampCount_eq e.bidLevels_le]
    exact e.bidLevels_le.trans (by decide)
  askCount_le := by
    rw [clampCount_eq e.askLevels_le]
    exact e.askLevels_le.trans (by decide)

/-- The best bid as it is stored. -/
def bid₀ (b : OrderBook) : PriceLevel :=
  b.bids.get ⟨0, by decide⟩

/-- The best offer as it is stored. -/
def ask₀ (b : OrderBook) : PriceLevel :=
  b.asks.get ⟨0, by decide⟩

/-- `snapshot_bbo`. -/
def snapshotBbo (b : OrderBook) : BBOEvent where
  instrumentId := b.instrumentId
  type := .bboUpdate
  bidPx := if b.bidCount > 0 then b.bid₀.price else 0
  bidQty := if b.bidCount > 0 then b.bid₀.qty else 0
  askPx := if b.askCount > 0 then b.ask₀.price else 0
  askQty := if b.askCount > 0 then b.ask₀.qty else 0

/-- The number of levels that `snapshot_depth` returns. -/
def depthCount (count : ℕ) : ℕ :=
  if count < marketDepth then count else marketDepth

lemma depthCount_eq_min (count : ℕ) : depthCount count = min count marketDepth := by
  unfold depthCount
  split <;> omega

/-- `snapshot_depth`. -/
def snapshotDepth (b : OrderBook) : DepthEvent where
  tsNs := 0
  instrumentId := b.instrumentId
  bidLevels := depthCount b.bidCount
  askLevels := depthCount b.askCount
  bids := readLevels b.bids (depthCount b.bidCount)
  asks := readLevels b.asks (depthCount b.askCount)
  bidLevels_le := by
    rw [depthCount_eq_min]
    exact min_le_right _ _
  askLevels_le := by
    rw [depthCount_eq_min]
    exact min_le_right _ _

/-- `mid_price`. -/
def midPrice (b : OrderBook) : ℤ :=
  if b.bidCount > 0 ∧ b.askCount > 0 ∧ b.bid₀.price > 0 ∧ b.ask₀.price > 0 then
    (b.bid₀.price + b.ask₀.price).tdiv 2
  else 0

/-- `spread`. -/
def spread (b : OrderBook) : ℤ :=
  if b.bidCount > 0 ∧ b.askCount > 0 ∧ b.bid₀.price > 0 ∧ b.ask₀.price > 0 then
    b.ask₀.price - b.bid₀.price
  else 0

/-- `is_crossed`. -/
def isCrossed (b : OrderBook) : Bool :=
  if b.bidCount > 0 ∧ b.askCount > 0 then b.bid₀.price ≥ b.ask₀.price else false

end OrderBook

/-! ## The top of the book -/

/-- What the readers of the book see. -/
structure Readings where
  snapshotBbo : BBOEvent
  midPrice : ℤ
  spread : ℤ
  isCrossed : Bool
  deriving DecidableEq, Repr

/-- The results of the four functions that read the book. -/
def OrderBook.readings (b : OrderBook) : Readings where
  snapshotBbo := b.snapshotBbo
  midPrice := b.midPrice
  spread := b.spread
  isCrossed := b.isCrossed

/-- The best level of each side that has one. -/
structure Top where
  bid : Option PriceLevel
  ask : Option PriceLevel
  deriving DecidableEq, Repr

namespace Top

/-- The best bid as it is shown. -/
def shownBid (t : Top) : PriceLevel := t.bid.getD {}

/-- The best offer as it is shown. -/
def shownAsk (t : Top) : PriceLevel := t.ask.getD {}

/-- Both sides are there and their prices cross. -/
def crossed (t : Top) : Bool :=
  t.bid.isSome && t.ask.isSome && t.shownBid.price ≥ t.shownAsk.price

end Top

/-- The top of a quote. -/
def BBOEvent.top (e : BBOEvent) : Top :=
  ⟨some ⟨e.bidPx, e.bidQty⟩, some ⟨e.askPx, e.askQty⟩⟩

/-- The top of a depth update. -/
def DepthEvent.top (e : DepthEvent) : Top where
  bid := if 0 < e.bidLevels then some (e.bids.get ⟨0, by decide⟩) else none
  ask := if 0 < e.askLevels then some (e.asks.get ⟨0, by decide⟩) else none

namespace OrderBook

/-- The top of the book. -/
def top (b : OrderBook) : Top where
  bid := if 0 < b.bidCount then some b.bid₀ else none
  ask := if 0 < b.askCount then some b.ask₀ else none

variable {b b' : OrderBook}

@[simp] lemma top_init (id : ℕ) : (init id).top = ⟨none, none⟩ := rfl

/-- A quote overwrites the top. -/
lemma top_applyBbo (b : OrderBook) (e : BBOEvent) : (b.applyBbo e).top = e.top := by
  have hbid : 0 < (b.applyBbo e).bidCount := by
    simp only [applyBbo]
    split_ifs
    · exact Nat.one_pos
    · omega
  have hask : 0 < (b.applyBbo e).askCount := by
    simp only [applyBbo]
    split_ifs
    · exact Nat.one_pos
    · omega
  rw [top, if_pos hbid, if_pos hask]
  have hbest : (b.applyBbo e).bid₀ = ⟨e.bidPx, e.bidQty⟩ := Vector.getElem_set_self _
  have hoffer : (b.applyBbo e).ask₀ = ⟨e.askPx, e.askQty⟩ := Vector.getElem_set_self _
  rw [hbest, hoffer, BBOEvent.top]

/-- The first level after the loop. -/
lemma get_zero_writeLevels (levels : Vector PriceLevel maxLevels)
    (source : Vector PriceLevel marketDepth) {n : ℕ} (hn : n ≤ marketDepth) (hpos : 0 < n) :
    (writeLevels levels source n hn).get ⟨0, by decide⟩ = source.get ⟨0, by decide⟩ := by
  rw [writeLevels, get_ofFn, dif_pos hpos]

/-- A depth update overwrites the top. -/
lemma top_applyDepth (b : OrderBook) (e : DepthEvent) : (b.applyDepth e).top = e.top := by
  have hbid : (b.applyDepth e).bidCount = e.bidLevels := clampCount_eq e.bidLevels_le
  have hask : (b.applyDepth e).askCount = e.askLevels := clampCount_eq e.askLevels_le
  rw [top, DepthEvent.top, hbid, hask, Top.mk.injEq]
  constructor
  · split_ifs with hpos
    · rw [← clampCount_eq e.bidLevels_le] at hpos
      exact congrArg some (get_zero_writeLevels b.bids e.bids
        ((clampCount_eq e.bidLevels_le).trans_le e.bidLevels_le) hpos)
    · rfl
  · split_ifs with hpos
    · rw [← clampCount_eq e.askLevels_le] at hpos
      exact congrArg some (get_zero_writeLevels b.asks e.asks
        ((clampCount_eq e.askLevels_le).trans_le e.askLevels_le) hpos)
    · rfl

/-- The snapshot shows the top. -/
lemma snapshotBbo_eq (b : OrderBook) :
    b.snapshotBbo =
      { instrumentId := b.instrumentId
        bidPx := b.top.shownBid.price
        bidQty := b.top.shownBid.qty
        askPx := b.top.shownAsk.price
        askQty := b.top.shownAsk.qty } := by
  simp only [snapshotBbo, top, Top.shownBid, Top.shownAsk, gt_iff_lt, apply_ite PriceLevel.price,
    apply_ite PriceLevel.qty, apply_ite (Option.getD · ({} : PriceLevel)), Option.getD_some,
    Option.getD_none]

/-- `mid_price` is that of the prices shown. -/
lemma midPrice_eq (b : OrderBook) :
    b.midPrice =
      if b.top.shownBid.price > 0 ∧ b.top.shownAsk.price > 0 then
        (b.top.shownBid.price + b.top.shownAsk.price).tdiv 2
      else 0 := by
  unfold midPrice top Top.shownBid Top.shownAsk
  by_cases hbid : 0 < b.bidCount <;> by_cases hask : 0 < b.askCount <;> simp [hbid, hask]

/-- `spread` is that of the prices shown. -/
lemma spread_eq (b : OrderBook) :
    b.spread =
      if b.top.shownBid.price > 0 ∧ b.top.shownAsk.price > 0 then
        b.top.shownAsk.price - b.top.shownBid.price
      else 0 := by
  unfold spread top Top.shownBid Top.shownAsk
  by_cases hbid : 0 < b.bidCount <;> by_cases hask : 0 < b.askCount <;> simp [hbid, hask]

/-- `is_crossed` depends on the presence of the sides as well. -/
lemma isCrossed_eq (b : OrderBook) : b.isCrossed = b.top.crossed := by
  unfold isCrossed top Top.crossed Top.shownBid Top.shownAsk
  by_cases hbid : 0 < b.bidCount <;> by_cases hask : 0 < b.askCount <;> simp [hbid, hask]

/-- Two books of one instrument read the same when they show the same levels and are both crossed or
both not. -/
theorem readings_eq_iff (hid : b.instrumentId = b'.instrumentId) :
    b.readings = b'.readings ↔
      b.top.shownBid = b'.top.shownBid ∧ b.top.shownAsk = b'.top.shownAsk ∧
        b.top.crossed = b'.top.crossed := by
  simp only [readings, Readings.mk.injEq, snapshotBbo_eq, isCrossed_eq, BBOEvent.mk.injEq]
  constructor
  · rintro ⟨⟨-, -, -, -, hbidPx, haskPx, hbidQty, haskQty⟩, -, -, hcrossed⟩
    exact ⟨PriceLevel.ext_iff.mpr ⟨hbidPx, hbidQty⟩, PriceLevel.ext_iff.mpr ⟨haskPx, haskQty⟩,
      hcrossed⟩
  · rintro ⟨hbid, hask, hcrossed⟩
    rw [midPrice_eq, midPrice_eq, spread_eq, spread_eq, hbid, hask]
    exact ⟨by simp [hid], rfl, rfl, hcrossed⟩

end OrderBook

end QuantTrade
