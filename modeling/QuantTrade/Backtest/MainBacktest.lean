import Mathlib.Algebra.BigOperators.Intervals
import QuantTrade.Backtest.Backtester
import QuantTrade.Backtest.MetricsReport

/-!
# The program of the backtest

`main` of `src/backtest/main_backtest.cpp`: of every ten quotes the first lifts the offer with an
order for one lot and the sixth hits the bid, and every hundred quotes are a day.  The sine of the
prices is a parameter.  Whatever it is, every order is filled on its own quote, at most one lot is
held, and the report is that of the trips from a purchase to the sale after it (`run_accounts`).
-/

namespace QuantTrade

namespace MainBacktest

/-- `BASE_PRICE`. -/
def basePrice : ℤ := 1000

/-- `AMPLITUDE`. -/
def amplitude : ℤ := 50

/-- `BBOS_PER_DAY`. -/
def bbosPerDay : ℕ := 100

/-- `INSTRUMENT_ID`. -/
def instrumentId : ℕ := 0

/-- `make_bbo`; `wave idx` is the integer that the product of the amplitude and the sine is cast
to. -/
def makeBbo (wave : ℕ → ℤ) (idx : ℕ) : BBOEvent :=
  let mid := basePrice + wave idx
  { exchangeTsNs := idx * 1000000
    localTsNs := idx * 1000000
    instrumentId := instrumentId
    type := .bboUpdate
    bidPx := mid - 1
    askPx := mid + 1
    bidQty := 100
    askQty := 100 }

end MainBacktest

/-- The variables of `main`; the exchange and the positions are those of the backtester. -/
structure MainBacktest where
  backtester : Backtester
  report : MetricsReport
  /-- The counter of the fill handler. -/
  fillCount : ℕ
  prevRealizedPnl : ℤ

namespace MainBacktest

/-- Before the loop: an exchange without slippage, which fills all of an order. -/
def init : MainBacktest where
  backtester := .init (.init 0 (exactScale 1))
  report := {}
  fillCount := 0
  prevRealizedPnl := 0

/-- The order of the strategy on a quote. -/
def order (bbo : BBOEvent) (side : Side) (price : ℤ) : OrderRequest where
  instrumentId := instrumentId
  side := side
  type := .limit
  price := price
  qty := 1
  strategyTsNs := bbo.localTsNs

/-- What the strategy sends on the `i`-th quote. -/
def trade (exchange : SimExchange) (bbo : BBOEvent) (i : ℕ) : SimExchange :=
  let exchange :=
    if i % 10 = 0 then exchange.sendNewOrder (order bbo .buy bbo.askPx) else exchange
  if i % 10 = 5 then exchange.sendNewOrder (order bbo .sell bbo.bidPx) else exchange

/-- A round of the loop up to `feed_bbo`, with the calls of the fill handler. -/
def feed (s : MainBacktest) (wave : ℕ → ℤ) (i : ℕ) : MainBacktest :=
  let bbo := makeBbo wave i
  let (backtester, reports) :=
    { s.backtester with exchange := trade s.backtester.exchange bbo i }.feedBbo bbo
  { s with backtester := backtester, fillCount := s.fillCount + reports.fills.length }

/-- The end of a round, which is the end of a day after every hundred quotes. -/
def endDay (s : MainBacktest) (i : ℕ) : MainBacktest :=
  if (i + 1) % bbosPerDay = 0 then
    let curRealized := s.backtester.pm.getTotalRealizedPnl
    { s with
      report := s.report.recordPnl (curRealized - s.prevRealizedPnl)
      prevRealizedPnl := curRealized }
  else s

/-- A round of the loop. -/
def round (wave : ℕ → ℤ) (s : MainBacktest) (i : ℕ) : MainBacktest :=
  (s.feed wave i).endDay i

/-- The program after `n` quotes; `main` ends after `NUM_BBO`, which are 1000. -/
def run (wave : ℕ → ℤ) (n : ℕ) : MainBacktest :=
  (List.range n).foldl (round wave) init

/-! ## The trips -/

/-- The result of a trip: what the bid of the sale is above the offer of the purchase. -/
def trip (wave : ℕ → ℤ) (k : ℕ) : ℤ :=
  (makeBbo wave (10 * k + 5)).bidPx - (makeBbo wave (10 * k)).askPx

/-- The purchases among `n` quotes. -/
def bought (n : ℕ) : ℕ :=
  (n + 9) / 10

/-- The sales among `n` quotes. -/
def sold (n : ℕ) : ℕ :=
  (n + 4) / 10

/-- The result of the trips that are complete after `n` quotes. -/
def realized (wave : ℕ → ℤ) (n : ℕ) : ℤ :=
  ∑ k ∈ Finset.range (sold n), trip wave k

/-- The result of a day. -/
def day (wave : ℕ → ℤ) (d : ℕ) : ℤ :=
  ∑ k ∈ Finset.range 10, trip wave (10 * d + k)

/-- A trip pays the spread and earns the move of the prices. -/
lemma trip_eq (wave : ℕ → ℤ) (k : ℕ) :
    trip wave k = wave (10 * k + 5) - wave (10 * k) - 2 := by
  simp only [trip, makeBbo]
  omega

/-- The slot of the instrument after `n` quotes. -/
def slot (wave : ℕ → ℤ) (n : ℕ) : PositionManager.Slot :=
  if sold n < bought n then
    { netQty := 1, avgCost := (makeBbo wave (10 * sold n)).askPx, realizedPnl := realized wave n }
  else { netQty := 0, avgCost := 0, realizedPnl := realized wave n }

/-- The exchange and the positions after `n` quotes. -/
structure Traded (wave : ℕ → ℤ) (n : ℕ) (s : MainBacktest) : Prop where
  slippage : s.backtester.exchange.slippageTicks = 0
  scaled : s.backtester.exchange.scaled = exactScale 1
  noOrders : s.backtester.exchange.pendingOrders = []
  noAcks : s.backtester.exchange.ackQueue = []
  noFills : s.backtester.exchange.fillQueue = []
  nextId : s.backtester.exchange.nextClientOrderId = bought n + sold n + 1
  bboCount : s.backtester.bboCount = n
  fillCount : s.backtester.fillCount = bought n + sold n
  handled : s.fillCount = bought n + sold n
  traded : s.backtester.pm.slots instrumentId = slot wave n
  others : ∀ i, i ≠ instrumentId → s.backtester.pm.slots i = {}

/-- The report after `n` quotes. -/
structure Reported (wave : ℕ → ℤ) (n : ℕ) (s : MainBacktest) : Prop where
  days : s.report.dailyPnls = (List.range (n / bbosPerDay)).map (day wave)
  prev : s.prevRealizedPnl = realized wave (n / bbosPerDay * bbosPerDay)

/-! ## A quote -/

/-- The exchange fills all of an order. -/
lemma truncate_exactScale (qty : ℤ) : truncate (exactScale 1 qty) = qty := by
  simp [truncate, exactScale]

/-- The prices of the program make a valid quote. -/
lemma isValidBbo_makeBbo {wave : ℕ → ℤ} (hwave : ∀ i, |wave i| ≤ amplitude) (idx : ℕ) :
    (makeBbo wave idx).isValidBbo = true := by
  have hlow := (abs_le.mp (hwave idx)).1
  rw [amplitude] at hlow
  have hbid : 0 < basePrice + wave idx - 1 := by
    rw [basePrice]
    omega
  have hask : 0 < basePrice + wave idx + 1 := by omega
  have hspread : basePrice + wave idx - 1 < basePrice + wave idx + 1 := by omega
  simp [BBOEvent.isValidBbo, makeBbo, -Int.sub_pos, hbid, hask, hspread]

/-- An order satisfies its own quote. -/
lemma canFill_order {s : SimExchange} (hslippage : s.slippageTicks = 0) (bbo : BBOEvent)
    (side : Side) : s.canFill bbo (order bbo side (SimExchange.fillPrice bbo side)) = true := by
  have hzero : s.slippage = 0 := by
    rw [SimExchange.slippage, hslippage]
    rfl
  cases side with
  | buy => simp [SimExchange.canFill, order, SimExchange.fillPrice, hzero]
  | sell => simp [SimExchange.canFill, order, SimExchange.fillPrice, hzero]

section Quote

variable {b : Backtester} (hslippage : b.exchange.slippageTicks = 0)
  (hscaled : b.exchange.scaled = exactScale 1) (horders : b.exchange.pendingOrders = [])
  (hacks : b.exchange.ackQueue = []) (hfills : b.exchange.fillQueue = [])

include horders hacks hfills in
/-- A quote without an order. -/
lemma feedBbo_idle (bbo : BBOEvent) :
    b.feedBbo bbo = ({ b with bboCount := b.bboCount + 1 }, { acks := [], fills := [] }) := by
  have hmatched : b.exchange.matched bbo = [] := by
    simp [SimExchange.matched, horders]
  have hstays : { b.exchange with pendingOrders := [] } = b.exchange := by
    rw [← horders]
  rw [Backtester.feedBbo_eq hacks hfills, hmatched, horders]
  simp [hstays]

include hslippage hscaled horders hacks hfills in
/-- An order on its own quote is filled at the price of its side, and nothing stays. -/
lemma feedBbo_order {bbo : BBOEvent} (hvalid : bbo.isValidBbo = true) (side : Side) :
    ∃ acks fill, fill.instrumentId = instrumentId ∧ fill.side = side ∧
      fill.fillPrice = SimExchange.fillPrice bbo side ∧ fill.fillQty = 1 ∧
      { b with
          exchange := b.exchange.sendNewOrder
            (order bbo side (SimExchange.fillPrice bbo side)) }.feedBbo bbo =
        ({ exchange := { b.exchange with
            nextClientOrderId := b.exchange.nextClientOrderId + 1
            nextExchangeOrderId := b.exchange.nextExchangeOrderId + 1 }
           pm := b.pm.onFill fill
           bboCount := b.bboCount + 1
           fillCount := b.fillCount + 1 },
          { acks := acks, fills := [fill] }) := by
  set req := order bbo side (SimExchange.fillPrice bbo side) with hreq
  set entry := b.exchange.newEntry req with hentry
  have hqty : (b.exchange.sendNewOrder req).fillQty req = 1 := by
    have hsame : (b.exchange.sendNewOrder req).scaled = exactScale 1 := hscaled
    rw [SimExchange.fillQty, hsame, truncate_exactScale, hreq, order]
  have hcan : (b.exchange.sendNewOrder req).canFill bbo req = true :=
    canFill_order (s := b.exchange.sendNewOrder req) hslippage bbo side
  have hwaiting : (b.exchange.sendNewOrder req).pendingOrders = [entry] := by
    rw [SimExchange.sendNewOrder, horders, List.nil_append]
  have hexecutes : (b.exchange.sendNewOrder req).executes bbo entry = true := by
    have hsame : entry.req = req := rfl
    rw [SimExchange.executes, hsame, hcan, hqty]
    rfl
  have hmatched : (b.exchange.sendNewOrder req).matched bbo = [entry] := by
    rw [SimExchange.matched, if_pos hvalid, hwaiting]
    simp [hexecutes]
  have hleft : (b.exchange.sendNewOrder req).leftover bbo entry = none := by
    have hsame : entry.req = req := rfl
    rw [SimExchange.leftover, hsame, if_neg (by simp [hcan]), if_neg]
    rintro ⟨-, hless⟩
    rw [hqty, hreq, order] at hless
    exact lt_irrefl _ hless
  refine ⟨[SimExchange.ackOf bbo entry], (b.exchange.sendNewOrder req).fillOf bbo entry, rfl, rfl,
    rfl, hqty, ?_⟩
  have hfeed := @Backtester.feedBbo_eq { b with exchange := b.exchange.sendNewOrder req } hacks
    hfills bbo
  dsimp only at hfeed
  rw [hmatched, hwaiting, if_pos hvalid] at hfeed
  simp only [List.filterMap_cons, hleft, List.filterMap_nil, List.map_cons, List.map_nil,
    List.foldl_cons, List.foldl_nil, List.length_singleton] at hfeed
  rw [hfeed]
  simp [SimExchange.sendNewOrder, ← horders]

end Quote

/-! ## A round -/

lemma bought_succ (i : ℕ) : bought (i + 1) = bought i + if i % 10 = 0 then 1 else 0 := by
  simp only [bought]
  split_ifs <;> omega

lemma sold_succ (i : ℕ) : sold (i + 1) = sold i + if i % 10 = 5 then 1 else 0 := by
  simp only [sold]
  split_ifs <;> omega

/-- The positions after a fill of the instrument. -/
lemma slots_onFill_eq {pm : PositionManager} {fill : FillEvent}
    (hid : fill.instrumentId = instrumentId) (hothers : ∀ i, i ≠ instrumentId → pm.slots i = {}) :
    (pm.onFill fill).slots instrumentId = (pm.slots instrumentId).onFill fill ∧
      ∀ i, i ≠ instrumentId → (pm.onFill fill).slots i = {} := by
  constructor
  · rw [PositionManager.slots_onFill pm fill (by decide), if_pos hid]
  · intro i hi
    have hsame : (pm.onFill fill).slots i = pm.slots i := by
      rw [PositionManager.onFill, if_neg (by rw [hid]; decide), hid]
      exact Function.update_of_ne hi _ _
    rw [hsame, hothers i hi]

/-- The purchase of a trip. -/
lemma slot_buy {wave : ℕ → ℤ} {i : ℕ} (hi : i % 10 = 0) {fill : FillEvent}
    (hside : fill.side = .buy) (hprice : fill.fillPrice = (makeBbo wave i).askPx)
    (hqty : fill.fillQty = 1) : (slot wave i).onFill fill = slot wave (i + 1) := by
  have hflat : ¬sold i < bought i := by
    simp only [sold, bought]
    omega
  have hheld : sold (i + 1) < bought (i + 1) := by
    simp only [sold, bought]
    omega
  have hsold : sold (i + 1) = sold i := by
    rw [sold_succ, if_neg (by omega), add_zero]
  have hindex : 10 * sold i = i := by
    simp only [sold]
    omega
  rw [slot, if_neg hflat, PositionManager.Slot.onFill_buy_grow hside le_rfl (by omega), slot,
    if_pos hheld, realized, realized, hsold, hindex, hqty, hprice]
  simp

/-- The sale of a trip. -/
lemma slot_sell {wave : ℕ → ℤ} {i : ℕ} (hi : i % 10 = 5) {fill : FillEvent}
    (hside : fill.side = .sell) (hprice : fill.fillPrice = (makeBbo wave i).bidPx)
    (hqty : fill.fillQty = 1) : (slot wave i).onFill fill = slot wave (i + 1) := by
  have hheld : sold i < bought i := by
    simp only [sold, bought]
    omega
  have hflat : ¬sold (i + 1) < bought (i + 1) := by
    simp only [sold, bought]
    omega
  have hsold : sold (i + 1) = sold i + 1 := by
    rw [sold_succ, if_pos hi]
  have hindex : 10 * sold i + 5 = i := by
    simp only [sold]
    omega
  rw [slot, if_pos hheld, PositionManager.Slot.onFill_sell_close hside Int.one_pos, slot,
    if_neg hflat, realized, realized, hsold, Finset.sum_range_succ, trip, hindex, hqty, hprice]
  simp

/-- A quote on which the strategy sends an order. -/
lemma Traded.feed_order {wave : ℕ → ℤ} (hwave : ∀ i, |wave i| ≤ amplitude) {s : MainBacktest}
    {i : ℕ} (h : Traded wave i s) {side : Side}
    (htrade : trade s.backtester.exchange (makeBbo wave i) i =
      s.backtester.exchange.sendNewOrder (order (makeBbo wave i) side
        (SimExchange.fillPrice (makeBbo wave i) side)))
    (hcount : bought (i + 1) + sold (i + 1) = bought i + sold i + 1)
    (hslot : ∀ fill : FillEvent, fill.side = side →
      fill.fillPrice = SimExchange.fillPrice (makeBbo wave i) side → fill.fillQty = 1 →
        (slot wave i).onFill fill = slot wave (i + 1)) :
    Traded wave (i + 1) (s.feed wave i) := by
  obtain ⟨acks, fill, hid, hside, hprice, hqty, hfeed⟩ :=
    feedBbo_order h.slippage h.scaled h.noOrders h.noAcks h.noFills (isValidBbo_makeBbo hwave i)
      side
  obtain ⟨htraded, hothers⟩ := slots_onFill_eq hid h.others
  rw [MainBacktest.feed, htrade, hfeed]
  refine ⟨h.slippage, h.scaled, h.noOrders, h.noAcks, h.noFills, ?_, ?_, ?_, ?_, ?_, hothers⟩
  · dsimp only
    rw [h.nextId, hcount]
  · dsimp only
    rw [h.bboCount]
  · dsimp only
    rw [h.fillCount, hcount]
  · dsimp only
    rw [h.handled, hcount, List.length_singleton]
  · dsimp only
    rw [htraded, h.traded]
    exact hslot fill hside hprice hqty

/-- **A quote** keeps what is known of the exchange and the positions. -/
lemma Traded.feed {wave : ℕ → ℤ} (hwave : ∀ i, |wave i| ≤ amplitude) {s : MainBacktest} {i : ℕ}
    (h : Traded wave i s) : Traded wave (i + 1) (s.feed wave i) := by
  have hbought := bought_succ i
  have hsold := sold_succ i
  by_cases hbuy : i % 10 = 0
  · rw [if_pos hbuy] at hbought
    rw [if_neg (by omega)] at hsold
    refine h.feed_order hwave ?_ (by omega) fun fill hside hprice hqty =>
      slot_buy hbuy hside hprice hqty
    simp [trade, hbuy, SimExchange.fillPrice]
  · rw [if_neg hbuy] at hbought
    by_cases hsell : i % 10 = 5
    · rw [if_pos hsell] at hsold
      refine h.feed_order hwave ?_ (by omega) fun fill hside hprice hqty =>
        slot_sell hsell hside hprice hqty
      simp [trade, hsell, SimExchange.fillPrice]
    · rw [if_neg hsell] at hsold
      have htrade : trade s.backtester.exchange (makeBbo wave i) i = s.backtester.exchange := by
        simp [trade, hbuy, hsell]
      have hcount : bought (i + 1) + sold (i + 1) = bought i + sold i := by omega
      have hslot : slot wave (i + 1) = slot wave i := by
        rw [slot, slot, realized, realized, hbought, hsold, add_zero, add_zero]
      rw [MainBacktest.feed, htrade, feedBbo_idle h.noOrders h.noAcks h.noFills]
      refine ⟨h.slippage, h.scaled, h.noOrders, h.noAcks, h.noFills, ?_, ?_, ?_, ?_, ?_, h.others⟩
      · rw [hcount]
        exact h.nextId
      · dsimp only
        rw [h.bboCount]
      · rw [hcount]
        exact h.fillCount
      · rw [hcount]
        exact h.handled
      · rw [hslot]
        exact h.traded

/-- The trips of the days so far and those of the next day. -/
lemma realized_add_day (wave : ℕ → ℤ) (d : ℕ) :
    realized wave ((d + 1) * bbosPerDay) = realized wave (d * bbosPerDay) + day wave d := by
  have hbefore : sold (d * bbosPerDay) = 10 * d := by
    simp only [sold, bbosPerDay]
    omega
  have hafter : sold ((d + 1) * bbosPerDay) = 10 * d + 10 := by
    simp only [sold, bbosPerDay]
    omega
  rw [realized, realized, hbefore, hafter, Finset.sum_range_add, day]

/-- The total of the positions. -/
lemma Traded.total {wave : ℕ → ℤ} {n : ℕ} {s : MainBacktest} (h : Traded wave n s) :
    s.backtester.pm.getTotalRealizedPnl = realized wave n := by
  have hid : instrumentId < maxInstruments := by decide
  rw [PositionManager.getTotalRealizedPnl_of_single hid, h.traded, slot]
  · split_ifs <;> rfl
  · intro i hi
    rw [h.others i hi]

/-- **The end of a round** keeps the report. -/
lemma Reported.endDay {wave : ℕ → ℤ} {s : MainBacktest} {i : ℕ} (ht : Traded wave (i + 1) s)
    (h : Reported wave i s) : Reported wave (i + 1) (s.endDay i) := by
  unfold MainBacktest.endDay
  by_cases hend : (i + 1) % bbosPerDay = 0
  · have hdays : (i + 1) / bbosPerDay = i / bbosPerDay + 1 := by
      simp only [bbosPerDay] at hend ⊢
      omega
    have htime : (i / bbosPerDay + 1) * bbosPerDay = i + 1 := by
      simp only [bbosPerDay] at hend ⊢
      omega
    have htotal := realized_add_day wave (i / bbosPerDay)
    rw [htime] at htotal
    rw [if_pos hend]
    constructor
    · rw [hdays, List.range_succ, List.map_append, List.map_singleton]
      dsimp only [MetricsReport.recordPnl]
      rw [h.days, ht.total, h.prev, htotal, add_sub_cancel_left]
    · dsimp only
      rw [hdays, htime, ht.total]
  · have hdays : (i + 1) / bbosPerDay = i / bbosPerDay := by
      simp only [bbosPerDay] at hend ⊢
      omega
    rw [if_neg hend]
    exact ⟨by rw [hdays, h.days], by rw [hdays, h.prev]⟩

/-- What is known after any number of quotes. -/
lemma inv_run {wave : ℕ → ℤ} (hwave : ∀ i, |wave i| ≤ amplitude) (n : ℕ) :
    Traded wave n (run wave n) ∧ Reported wave n (run wave n) := by
  induction n with
  | zero => exact ⟨⟨rfl, rfl, rfl, rfl, rfl, rfl, rfl, rfl, rfl, rfl, fun _ _ => rfl⟩, ⟨rfl, rfl⟩⟩
  | succ n ih =>
    have hround : run wave (n + 1) = ((run wave n).feed wave n).endDay n := by
      rw [run, List.range_succ, List.foldl_append]
      rfl
    have htraded := ih.1.feed hwave
    rw [hround]
    constructor
    · unfold endDay
      split_ifs
      · exact ⟨htraded.slippage, htraded.scaled, htraded.noOrders, htraded.noAcks, htraded.noFills,
          htraded.nextId, htraded.bboCount, htraded.fillCount, htraded.handled, htraded.traded,
          htraded.others⟩
      · exact htraded
    · exact Reported.endDay htraded ⟨ih.2.days, ih.2.prev⟩

/-- **The accounts of the program.**  After any number of quotes no order waits, the exchange and
the fill handler have counted one fill for every order, one lot is held between a purchase and its
sale and none otherwise, the realized result is that of the complete trips, each of which pays the
spread of two and earns the move of the prices, the report has the results of the days there were,
and after a whole day it adds up to the realized result. -/
theorem run_accounts {wave : ℕ → ℤ} (hwave : ∀ i, |wave i| ≤ amplitude) (n : ℕ) :
    (run wave n).backtester.exchange.pendingOrders = [] ∧
      (run wave n).backtester.bboCount = n ∧
      (run wave n).backtester.fillCount =
        (run wave n).backtester.exchange.nextClientOrderId - 1 ∧
      (run wave n).fillCount = bought n + sold n ∧
      (run wave n).backtester.fillCount = bought n + sold n ∧
      (run wave n).backtester.pm.getNetQty instrumentId =
        (if 1 ≤ n % 10 ∧ n % 10 ≤ 5 then 1 else 0) ∧
      (run wave n).backtester.pm.getTotalRealizedPnl =
        ∑ k ∈ Finset.range (sold n), (wave (10 * k + 5) - wave (10 * k) - 2) ∧
      (run wave n).report.dailyPnls = (List.range (n / bbosPerDay)).map (day wave) ∧
      (n % bbosPerDay = 0 →
        (run wave n).report.totalPnl = (run wave n).backtester.pm.getTotalRealizedPnl) := by
  obtain ⟨ht, hr⟩ := inv_run hwave n
  have htotal : ∀ d, ((List.range d).map (day wave)).sum = realized wave (d * bbosPerDay) := by
    intro d
    induction d with
    | zero =>
      rw [zero_mul]
      rfl
    | succ d ih => rw [List.range_succ, List.map_append, List.sum_append, ih, realized_add_day,
        List.map_singleton, List.sum_singleton]
  refine ⟨ht.noOrders, ht.bboCount, ?_, ht.handled, ht.fillCount, ?_, ?_, hr.days, ?_⟩
  · rw [ht.fillCount, ht.nextId, Nat.add_sub_cancel]
  · have hid : ¬instrumentId ≥ maxInstruments := by decide
    have hheld : sold n < bought n ↔ 1 ≤ n % 10 ∧ n % 10 ≤ 5 := by
      simp only [sold, bought]
      omega
    rw [PositionManager.getNetQty, if_neg hid, ht.traded, slot]
    simp only [hheld]
    split_ifs <;> rfl
  · rw [ht.total, realized]
    exact Finset.sum_congr rfl fun k _ => trip_eq wave k
  · intro hday
    have htime : n / bbosPerDay * bbosPerDay = n := Nat.div_mul_cancel (Nat.dvd_of_mod_eq_zero hday)
    rw [MetricsReport.totalPnl_eq, hr.days, htotal, htime, ht.total]

/-- Prices that do not move: every trip loses the spread. -/
theorem run_accounts_flat :
    (run (fun _ => 0) 1000).backtester.pm.getTotalRealizedPnl =
      ∑ _k ∈ Finset.range (sold 1000), ((0 : ℤ) - 0 - 2) :=
  (run_accounts (fun _ => by decide) 1000).2.2.2.2.2.2.1

end MainBacktest

end QuantTrade
