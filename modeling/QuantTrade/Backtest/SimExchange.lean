import Mathlib.Data.Rat.Floor
import QuantTrade.Library.QueueSweep
import QuantTrade.MarketData.Types
import QuantTrade.Oms.Order

/-!
# The simulated exchange

`SimExchange` of `src/backtest/sim_exchange.{hpp,cpp}`.  All orders wait in one queue; every quote
sweeps it once and executes the orders whose prices allow it (`processBbo_eq`).  The slippage and
the fill ratio are doubles of the source: a double is a rational number here, and the product of a
quantity and the fill ratio, which may be rounded, is a setting of its own.
-/

namespace QuantTrade

/-- `static_cast` of a double to an integer: toward zero. -/
def truncate (x : ℚ) : ℤ :=
  x.num.tdiv x.den

/-- The product of a quantity and a fill ratio, without rounding. -/
def exactScale (ratio : ℚ) (qty : ℤ) : ℚ :=
  qty * ratio

/-- A positive integer that a double is cut down to is no more than the double. -/
lemma truncate_le {x : ℚ} (h : 0 < truncate x) : (truncate x : ℚ) ≤ x := by
  have hnum : 0 ≤ x.num := by
    by_contra hneg
    have hpos : 0 ≤ (-x.num).tdiv x.den := Int.tdiv_nonneg (by omega) (Int.natCast_nonneg _)
    rw [Int.neg_tdiv] at hpos
    rw [truncate] at h
    omega
  have hfloor : truncate x = ⌊x⌋ := by
    rw [truncate, Int.tdiv_eq_ediv_of_nonneg hnum, Rat.floor_def']
  rw [hfloor]
  exact Int.floor_le x

/-- `PendingEntry`: an order with its ids. -/
structure PendingEntry where
  req : OrderRequest
  arriveTsNs : ℕ
  clientOrderId : ℕ
  exchangeOrderId : ℕ
  deriving DecidableEq, Repr

/-- The exchange: its settings, its counters, the waiting orders and the reports not yet fetched. -/
structure SimExchange where
  slippageTicks : ℚ
  /-- The product of a quantity and the fill ratio. -/
  scaled : ℤ → ℚ
  nextClientOrderId : ℕ
  nextExchangeOrderId : ℕ
  pendingOrders : List PendingEntry
  ackQueue : List OrderAck
  fillQueue : List FillEvent

namespace SimExchange

/-- A new exchange. -/
def init (slippageTicks : ℚ) (scaled : ℤ → ℚ) : SimExchange where
  slippageTicks := slippageTicks
  scaled := scaled
  nextClientOrderId := 1
  nextExchangeOrderId := 1
  pendingOrders := []
  ackQueue := []
  fillQueue := []

/-- The entry that `send_new_order` makes of a request. -/
def newEntry (s : SimExchange) (req : OrderRequest) : PendingEntry where
  req := req
  arriveTsNs := req.strategyTsNs
  clientOrderId := s.nextClientOrderId
  exchangeOrderId := s.nextExchangeOrderId

/-- `send_new_order`. -/
def sendNewOrder (s : SimExchange) (req : OrderRequest) : SimExchange :=
  { s with
    nextClientOrderId := s.nextClientOrderId + 1
    nextExchangeOrderId := s.nextExchangeOrderId + 1
    pendingOrders := s.pendingOrders ++ [s.newEntry req] }

/-- The slippage as an integer. -/
def slippage (s : SimExchange) : ℤ :=
  truncate s.slippageTicks

/-- `can_fill`: the quote satisfies the order; its instrument is not looked at. -/
def canFill (s : SimExchange) (bbo : BBOEvent) (req : OrderRequest) : Bool :=
  match req.type with
  | .limit =>
    match req.side with
    | .buy => bbo.askPx ≤ req.price + s.slippage
    | .sell => bbo.bidPx ≥ req.price - s.slippage
  | .market => true
  | _ => false

/-- `fill_qty`. -/
def fillQty (s : SimExchange) (req : OrderRequest) : ℤ :=
  truncate (s.scaled req.qty)

/-- The ack of an execution. -/
def ackOf (bbo : BBOEvent) (entry : PendingEntry) : OrderAck where
  clientOrderId := entry.clientOrderId
  exchangeOrderId := entry.exchangeOrderId
  status := .new
  ackTsNs := bbo.localTsNs

/-- The price of an execution. -/
def fillPrice (bbo : BBOEvent) (side : Side) : ℤ :=
  if side = .buy then bbo.askPx else bbo.bidPx

/-- The fill of an execution. -/
def fillOf (s : SimExchange) (bbo : BBOEvent) (entry : PendingEntry) : FillEvent where
  clientOrderId := entry.clientOrderId
  exchangeOrderId := entry.exchangeOrderId
  instrumentId := entry.req.instrumentId
  side := entry.req.side
  fillPrice := fillPrice bbo entry.req.side
  fillQty := s.fillQty entry.req
  remainingQty := entry.req.qty - s.fillQty entry.req
  fillTsNs := bbo.localTsNs

/-- One round of the loop in `process_bbo`. -/
def matchFront (bbo : BBOEvent) (s : SimExchange) : SimExchange :=
  match s.pendingOrders with
  | [] => s
  | entry :: rest =>
    let s := { s with pendingOrders := rest }
    if ¬s.canFill bbo entry.req then { s with pendingOrders := s.pendingOrders ++ [entry] }
    else if s.fillQty entry.req ≤ 0 then s
    else
      let remaining := entry.req.qty - s.fillQty entry.req
      let s := { s with
        ackQueue := s.ackQueue ++ [ackOf bbo entry]
        fillQueue := s.fillQueue ++ [s.fillOf bbo entry] }
      if remaining > 0 then
        { s with
          pendingOrders :=
            s.pendingOrders ++ [{ entry with req := { entry.req with qty := remaining } }] }
      else s

/-- `process_bbo`. -/
def processBbo (s : SimExchange) (bbo : BBOEvent) : SimExchange :=
  if !bbo.isValidBbo then s else (matchFront bbo)^[s.pendingOrders.length] s

/-- `pop_ack`. -/
def popAck (s : SimExchange) : Option OrderAck × SimExchange :=
  match s.ackQueue with
  | [] => (none, s)
  | ack :: acks => (some ack, { s with ackQueue := acks })

/-- `pop_fill`. -/
def popFill (s : SimExchange) : Option FillEvent × SimExchange :=
  match s.fillQueue with
  | [] => (none, s)
  | fill :: fills => (some fill, { s with fillQueue := fills })

/-! ## What a pop leaves alone -/

@[simp] lemma pendingOrders_popAck (s : SimExchange) :
    s.popAck.2.pendingOrders = s.pendingOrders := by
  unfold popAck
  split <;> rfl

@[simp] lemma pendingOrders_popFill (s : SimExchange) :
    s.popFill.2.pendingOrders = s.pendingOrders := by
  unfold popFill
  split <;> rfl

@[simp] lemma nextClientOrderId_popAck (s : SimExchange) :
    s.popAck.2.nextClientOrderId = s.nextClientOrderId := by
  unfold popAck
  split <;> rfl

@[simp] lemma nextClientOrderId_popFill (s : SimExchange) :
    s.popFill.2.nextClientOrderId = s.nextClientOrderId := by
  unfold popFill
  split <;> rfl

/-! ## What a quote does -/

/-- The quote executes the order. -/
def executes (s : SimExchange) (bbo : BBOEvent) (entry : PendingEntry) : Bool :=
  s.canFill bbo entry.req && 0 < s.fillQty entry.req

/-- What stays in the queue of an order. -/
def leftover (s : SimExchange) (bbo : BBOEvent) (entry : PendingEntry) : Option PendingEntry :=
  if ¬s.canFill bbo entry.req then some entry
  else if s.executes bbo entry ∧ s.fillQty entry.req < entry.req.qty then
    some { entry with req := { entry.req with qty := entry.req.qty - s.fillQty entry.req } }
  else none

/-- The orders that the quote executes, in the order of the queue. -/
def matched (s : SimExchange) (bbo : BBOEvent) : List PendingEntry :=
  if bbo.isValidBbo then s.pendingOrders.filter (s.executes bbo) else []

/-- The executed orders are those that a valid quote satisfies and of which the ratio leaves a
quantity. -/
lemma mem_matched {s : SimExchange} {bbo : BBOEvent} {entry : PendingEntry} :
    entry ∈ s.matched bbo ↔ bbo.isValidBbo = true ∧ entry ∈ s.pendingOrders ∧
      s.canFill bbo entry.req = true ∧ 0 < s.fillQty entry.req := by
  unfold matched
  split_ifs with hvalid
  · simp [executes, hvalid]
  · simp [hvalid]

/-- The reports of an order are appended when it is executed. -/
private def report (s : SimExchange) (bbo : BBOEvent) (reports : List OrderAck × List FillEvent)
    (entry : PendingEntry) : List OrderAck × List FillEvent :=
  if s.executes bbo entry then (reports.1 ++ [ackOf bbo entry], reports.2 ++ [s.fillOf bbo entry])
  else reports

/-- An exchange with these settings, this queue and these reports. -/
private def put (s : SimExchange) (p : List PendingEntry × List OrderAck × List FillEvent) :
    SimExchange :=
  { s with
    pendingOrders := p.1
    ackQueue := p.2.1
    fillQueue := p.2.2 }

section Rounds

variable (s : SimExchange) (bbo : BBOEvent) {entry : PendingEntry} (queue : List PendingEntry)
  (acks : List OrderAck) (fills : List FillEvent)

/-- An order that the quote does not satisfy goes to the back. -/
private lemma matchFront_of_not_canFill (hcan : ¬s.canFill bbo entry.req = true) :
    matchFront bbo (s.put (entry :: queue, acks, fills)) = s.put (queue ++ [entry], acks, fills) :=
  if_pos hcan

/-- An order of which the ratio leaves no quantity is dropped. -/
private lemma matchFront_of_not_pos (hcan : s.canFill bbo entry.req = true)
    (hpos : ¬0 < s.fillQty entry.req) :
    matchFront bbo (s.put (entry :: queue, acks, fills)) = s.put (queue, acks, fills) :=
  (if_neg (not_not_intro hcan)).trans (if_pos (not_lt.mp hpos))

/-- An executed order is reported, and what is left of it goes to the back. -/
private lemma matchFront_of_executes (hcan : s.canFill bbo entry.req = true)
    (hpos : 0 < s.fillQty entry.req) :
    matchFront bbo (s.put (entry :: queue, acks, fills)) =
      s.put (queue ++ (s.leftover bbo entry).toList, acks ++ [ackOf bbo entry],
        fills ++ [s.fillOf bbo entry]) := by
  have hexec : s.executes bbo entry = true := by simp [executes, hcan, hpos]
  refine (if_neg (not_not_intro hcan)).trans ((if_neg (not_le.mpr hpos)).trans ?_)
  by_cases hrest : s.fillQty entry.req < entry.req.qty
  · have hsome : s.leftover bbo entry =
        some { entry with req := { entry.req with qty := entry.req.qty - s.fillQty entry.req } } :=
      (if_neg (not_not_intro hcan)).trans (if_pos ⟨hexec, hrest⟩)
    rw [hsome]
    exact if_pos (Int.sub_pos.mpr hrest)
  · have hnone : s.leftover bbo entry = none :=
      (if_neg (not_not_intro hcan)).trans (if_neg fun h => hrest h.2)
    rw [hnone, Option.toList_none, List.append_nil]
    exact if_neg fun h => hrest (Int.sub_pos.mp h)

end Rounds

/-- A round of the loop is a visit of the first order. -/
private lemma put_visit (s : SimExchange) (bbo : BBOEvent)
    (p : List PendingEntry × List OrderAck × List FillEvent) :
    s.put (QueueSweep.visit (s.leftover bbo) (s.report bbo) p) = matchFront bbo (s.put p) := by
  obtain ⟨_ | ⟨entry, queue⟩, acks, fills⟩ := p
  · rfl
  · rw [QueueSweep.visit, report]
    by_cases hcan : s.canFill bbo entry.req = true
    · by_cases hpos : 0 < s.fillQty entry.req
      · have hexec : s.executes bbo entry = true := by simp [executes, hcan, hpos]
        rw [matchFront_of_executes s bbo queue acks fills hcan hpos, if_pos hexec]
      · have hexec : ¬s.executes bbo entry = true := by simp [executes, hpos]
        have hnone : s.leftover bbo entry = none := by simp [leftover, hcan, hexec]
        rw [matchFront_of_not_pos s bbo queue acks fills hcan hpos, if_neg hexec, hnone,
          Option.toList_none, List.append_nil]
    · have hexec : ¬s.executes bbo entry = true := by simp [executes, hcan]
      have hsome : s.leftover bbo entry = some entry := if_pos hcan
      rw [matchFront_of_not_canFill s bbo queue acks fills hcan, if_neg hexec, hsome,
        Option.toList_some]

/-- The reports of a sweep. -/
private lemma foldl_report (s : SimExchange) (bbo : BBOEvent) (entries : List PendingEntry)
    (reports : List OrderAck × List FillEvent) :
    entries.foldl (s.report bbo) reports =
      (reports.1 ++ (entries.filter (s.executes bbo)).map (ackOf bbo),
        reports.2 ++ (entries.filter (s.executes bbo)).map (s.fillOf bbo)) := by
  induction entries generalizing reports with
  | nil => simp
  | cons entry entries ih =>
    rw [List.foldl_cons, ih, report]
    by_cases hexec : s.executes bbo entry = true
    · simp [hexec]
    · simp [hexec]

/-- **Sweep.**  A valid quote leaves of every order what it does not execute, and reports the
executions in the order of the queue; nothing else changes. -/
theorem processBbo_eq (s : SimExchange) (bbo : BBOEvent) :
    s.processBbo bbo =
      { s with
        pendingOrders :=
          if bbo.isValidBbo then s.pendingOrders.filterMap (s.leftover bbo) else s.pendingOrders
        ackQueue := s.ackQueue ++ (s.matched bbo).map (ackOf bbo)
        fillQueue := s.fillQueue ++ (s.matched bbo).map (s.fillOf bbo) } := by
  cases hvalid : bbo.isValidBbo with
  | false => simp [processBbo, matched, hvalid]
  | true =>
    have hsemi : Function.Semiconj s.put (QueueSweep.visit (s.leftover bbo) (s.report bbo))
        (matchFront bbo) :=
      s.put_visit bbo
    have hsweep := hsemi.iterate_right s.pendingOrders.length
      (s.pendingOrders, s.ackQueue, s.fillQueue)
    have hself : s.put (s.pendingOrders, s.ackQueue, s.fillQueue) = s := rfl
    rw [QueueSweep.iterate_visit, foldl_report, hself] at hsweep
    rw [processBbo, hvalid, Bool.not_true, if_neg Bool.false_ne_true, ← hsweep]
    simp [put, matched, hvalid]

end SimExchange

end QuantTrade
