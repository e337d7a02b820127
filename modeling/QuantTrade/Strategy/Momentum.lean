import QuantTrade.Common.Doubles
import QuantTrade.Infra.SPSCQueue
import QuantTrade.Library.Transition
import QuantTrade.MarketData.Types
import QuantTrade.Oms.Order

/-!
# The momentum strategy

`Momentum` of `src/strategy/momentum.{hpp,cpp}` with its base class `StrategyBase`: two moving
averages of the middle of the best prices give a signal, and IOC orders follow it.  Nothing is
assumed of the arithmetic of doubles, so the averages can be any numbers.

What an event sends is a list of requests (`requests`), of which the queue takes as many as it has
room for (`contents_onBboImpl`).  A session of the strategy adds the orders that are sent and not
yet filled; an IOC order is filled once, for no more than its quantity, or expires.
-/

namespace QuantTrade

/-- `Momentum::Signal`. -/
inductive Signal where
  | none
  | long
  | short
  deriving DecidableEq, Repr

/-- The state of the strategy, with the queue of `StrategyBase`. -/
structure Momentum (F : Type) where
  instrumentId : ℕ
  /-- Strategy to OMS. -/
  orderQueue : SPSCQueue OrderRequest 1024
  fastAlpha : F
  slowAlpha : F
  fastEma : F
  slowEma : F
  warmupCount : ℤ
  warmupNeeded : ℤ
  orderQty : ℤ
  signalBand : ℤ
  maxAdverse : ℤ
  lastSignal : Signal
  /-- The middle when the position was opened; 0 is none. -/
  entryPrice : ℤ
  /-- The net position, positive when long. -/
  inventory : ℤ

namespace Momentum

variable {F : Type} [Doubles F]

open Doubles

/-- The constructor. -/
def init (instrumentId : ℕ) (fastPeriod slowPeriod orderQty signalBand maxAdverse : ℤ) :
    Momentum F where
  instrumentId := instrumentId
  orderQueue := .empty (fun _ => {}) SPSCQueue.capacity_1024
  fastAlpha := lit 2 / ofInt (fastPeriod + 1)
  slowAlpha := lit 2 / ofInt (slowPeriod + 1)
  fastEma := lit 0
  slowEma := lit 0
  warmupCount := 0
  warmupNeeded := slowPeriod
  orderQty := orderQty
  signalBand := signalBand
  maxAdverse := maxAdverse
  lastSignal := .none
  entryPrice := 0
  inventory := 0

/-- `StrategyBase::send_order`; the result is not looked at. -/
def sendOrder (m : Momentum F) (req : OrderRequest) : Momentum F :=
  { m with orderQueue := (m.orderQueue.push req).1 }

/-- `StrategyBase::pop_order`. -/
def popOrder (m : Momentum F) : Option OrderRequest × Momentum F :=
  (m.orderQueue.pop.1, { m with orderQueue := m.orderQueue.pop.2 })

/-- `ema_update`. -/
def emaUpdate (prev price alpha : F) : F :=
  prev + alpha * (price - prev)

/-- `update_ema`. -/
def updateEma (m : Momentum F) (mid : F) : Momentum F :=
  let m := if m.warmupCount = 0 then { m with fastEma := mid, slowEma := mid }
    else
      { m with
        fastEma := emaUpdate m.fastEma mid m.fastAlpha
        slowEma := emaUpdate m.slowEma mid m.slowAlpha }
  if m.warmupCount < m.warmupNeeded then { m with warmupCount := m.warmupCount + 1 } else m

/-- `compute_signal`. -/
def computeSignal (m : Momentum F) : Signal :=
  if m.warmupCount < m.warmupNeeded then .none
  else
    let diff := m.fastEma - m.slowEma
    if lt (ofInt m.signalBand) diff then .long
    else if lt diff (-ofInt m.signalBand) then .short
    else .none

/-- The request of `open_position`. -/
def openRequest (m : Momentum F) (sig : Signal) : OrderRequest where
  instrumentId := m.instrumentId
  side := if sig = .long then .buy else .sell
  type := .ioc
  price := if sig = .long then toInt m.fastEma + 1 else toInt m.fastEma - 1
  qty := m.orderQty

/-- `open_position`. -/
def openPosition (m : Momentum F) (sig : Signal) : Momentum F :=
  { m with
    entryPrice := toInt m.fastEma
    lastSignal := sig }.sendOrder (m.openRequest sig)

/-- The side of the orders that close the position. -/
def closingSide (m : Momentum F) : Side :=
  if m.inventory > 0 then .sell else .buy

/-- The request of `close_position`. -/
def closeRequest (m : Momentum F) : OrderRequest where
  instrumentId := m.instrumentId
  side := m.closingSide
  type := .ioc
  price := if m.inventory > 0 then toInt m.fastEma - 1 else toInt m.fastEma + 1
  qty := if m.inventory > 0 then m.inventory else -m.inventory

/-- `close_position`. -/
def closePosition (m : Momentum F) : Momentum F :=
  if m.inventory = 0 then { m with lastSignal := .none, entryPrice := 0 }
  else { m with lastSignal := .none, entryPrice := 0 }.sendOrder m.closeRequest

/-- The test of `check_stop_loss`: the middle is too far on the wrong side of the entry. -/
def hitsStop (m : Momentum F) (mid : ℤ) : Bool :=
  if m.entryPrice = 0 then false
  else if m.inventory = 0 then false
  else
    let adverse := if m.inventory > 0 then m.entryPrice - mid else mid - m.entryPrice
    adverse > m.maxAdverse

/-- `check_stop_loss`. -/
def checkStopLoss (m : Momentum F) (mid : ℤ) : Momentum F :=
  if m.hitsStop mid then m.closePosition else m

/-- The test for opening: there is a signal, and not the one that was followed last. -/
def enters (m : Momentum F) : Bool :=
  m.computeSignal ≠ .none ∧ m.computeSignal ≠ m.lastSignal

/-- The test for closing: the signal is gone or the opposite of the position. -/
def exits (m : Momentum F) : Bool :=
  let longPos := m.inventory > 0
  let flipLong := m.computeSignal = .short ∧ longPos
  let flipShort := m.computeSignal = .long ∧ ¬longPos
  let flat := m.computeSignal = .none
  flat ∨ flipLong ∨ flipShort

/-- The last part of `on_bbo_impl`: a position is opened or closed by the signal. -/
def followSignal (m : Momentum F) : Momentum F :=
  if m.inventory = 0 then
    if m.enters then m.openPosition m.computeSignal else m
  else if m.exits then m.closePosition
  else m

/-- The event is for this strategy, and its prices are valid. -/
def accepts (m : Momentum F) (e : BBOEvent) : Bool :=
  e.instrumentId = m.instrumentId ∧ e.isValidBbo

/-- The strategy with the averages after the event. -/
def updated (m : Momentum F) (e : BBOEvent) : Momentum F :=
  m.updateEma (ofInt e.midPrice)

/-- `on_bbo_impl`. -/
def onBboImpl (m : Momentum F) (e : BBOEvent) : Momentum F :=
  if m.accepts e then ((m.updated e).checkStopLoss e.midPrice).followSignal else m

/-- `on_fill_impl`. -/
def onFillImpl (m : Momentum F) (f : FillEvent) : Momentum F :=
  if f.instrumentId ≠ m.instrumentId then m
  else { m with inventory := m.inventory + f.side.signed f.fillQty }

/-! ## What an event sends -/

/-- The requests of an event, before the queue refuses some of them. -/
def requests (m : Momentum F) (e : BBOEvent) : List OrderRequest :=
  let m' := m.updated e
  if !m.accepts e then []
  else if m'.inventory = 0 then (if m'.enters then [m'.openRequest m'.computeSignal] else [])
  else
    (if m'.hitsStop e.midPrice then [m'.closeRequest] else []) ++
      (if m'.exits then [m'.closeRequest] else [])

variable {m : Momentum F} {e : BBOEvent}

omit [Doubles F] in
@[simp] lemma contents_sendOrder (req : OrderRequest) :
    (m.sendOrder req).orderQueue.contents = (m.orderQueue.contents ++ [req]).take 1024 :=
  m.orderQueue.contents_push_eq_take req

/-- The averages are all that an event changes before its tests. -/
lemma updated_frame (m : Momentum F) (e : BBOEvent) :
    (m.updated e).orderQueue = m.orderQueue ∧ (m.updated e).inventory = m.inventory ∧
      (m.updated e).lastSignal = m.lastSignal ∧ (m.updated e).entryPrice = m.entryPrice ∧
      (m.updated e).orderQty = m.orderQty := by
  unfold updated updateEma
  dsimp only
  split_ifs <;> exact ⟨rfl, rfl, rfl, rfl, rfl⟩

/-- Closing leaves all but the queue and what was noted of the opening. -/
lemma closePosition_eq (m : Momentum F) (h : m.inventory ≠ 0) :
    m.closePosition =
      { m with
        lastSignal := .none
        entryPrice := 0
        orderQueue := (m.orderQueue.push m.closeRequest).1 } := by
  rw [closePosition, if_neg h]
  rfl

omit [Doubles F] in
lemma not_hitsStop (h : m.inventory = 0) (mid : ℤ) : m.hitsStop mid = false := by
  simp [hitsStop, h]

/-- What following the signal sends. -/
lemma contents_followSignal (m : Momentum F) :
    m.followSignal.orderQueue.contents =
      (m.orderQueue.contents ++
        if m.inventory = 0 then (if m.enters then [m.openRequest m.computeSignal] else [])
        else if m.exits then [m.closeRequest] else []).take 1024 := by
  unfold followSignal
  split_ifs with hflat henters hexits
  · exact contents_sendOrder ..
  · rw [List.append_nil, SPSCQueue.take_contents]
  · rw [closePosition_eq m hflat]
    exact contents_sendOrder ..
  · rw [List.append_nil, SPSCQueue.take_contents]

/-- The queue takes the requests of an event as long as it has room. -/
lemma contents_onBboImpl (m : Momentum F) (e : BBOEvent) :
    (m.onBboImpl e).orderQueue.contents =
      (m.orderQueue.contents ++ m.requests e).take 1024 := by
  obtain ⟨hqueue, -⟩ := m.updated_frame e
  unfold onBboImpl requests
  cases haccepts : m.accepts e with
  | false => simp
  | true =>
    simp only [if_true, Bool.not_true, Bool.false_eq_true, if_false]
    rw [checkStopLoss]
    by_cases hflat : (m.updated e).inventory = 0
    · rw [not_hitsStop hflat, if_neg Bool.false_ne_true, contents_followSignal, if_pos hflat,
        if_pos hflat, hqueue]
    · by_cases hstop : (m.updated e).hitsStop e.midPrice = true
      · rw [if_pos hstop, if_neg hflat, if_pos hstop, closePosition_eq _ hflat,
          contents_followSignal]
        simp only [hflat, if_false]
        rw [SPSCQueue.contents_push_eq_take, BoundedFifo.take_append_take, List.append_assoc,
          hqueue]
        rfl
      · rw [if_neg hstop, if_neg hflat, if_neg hstop, contents_followSignal, if_neg hflat, hqueue]
        rfl

@[simp] lemma inventory_closePosition (m : Momentum F) :
    m.closePosition.inventory = m.inventory := by
  unfold closePosition
  split_ifs <;> rfl

/-- The inventory is changed by fills only. -/
@[simp] lemma inventory_onBboImpl (m : Momentum F) (e : BBOEvent) :
    (m.onBboImpl e).inventory = m.inventory := by
  obtain ⟨-, hinventory, -⟩ := m.updated_frame e
  have hstop : ((m.updated e).checkStopLoss e.midPrice).inventory = m.inventory := by
    unfold checkStopLoss
    split_ifs
    · rw [inventory_closePosition, hinventory]
    · exact hinventory
  unfold onBboImpl followSignal
  split_ifs
  · exact hstop
  · exact hstop
  · rw [inventory_closePosition, hstop]
  · exact hstop
  · rfl

/-! ## Sessions -/

/-- A run of the strategy with its IOC orders. -/
structure Session (F : Type) where
  strategy : Momentum F
  /-- The orders that were sent and are neither filled nor expired. -/
  outstanding : List OrderRequest
  /-- The side of the closing orders, from the first of them to the next opening order. -/
  closing : Option Side
  /-- What `compute_signal` returned at the last event. -/
  lastComputed : Option Signal

/-- An event, the fill of an outstanding order, the end of one, or a pop of the consumer. -/
inductive Action where
  | bbo (e : BBOEvent)
  | fill (k : ℕ) (qty : ℤ)
  | expire (k : ℕ)
  | pop
  deriving DecidableEq, Repr

namespace Session

/-- A new strategy, and nothing sent yet. -/
def start (m : Momentum F) : Session F where
  strategy := m
  outstanding := []
  closing := none
  lastComputed := none

/-- The best prices of instrument 1 around a middle. -/
def quoteAt (mid : ℤ) : Action :=
  .bbo { instrumentId := 1, bidPx := mid - 1, askPx := mid + 1 }

/-- The orders that get into the queue at an event. -/
def sent (s : Session F) (e : BBOEvent) : List OrderRequest :=
  (s.strategy.onBboImpl e).orderQueue.contents.drop s.strategy.orderQueue.size

/-- The fill of an order. -/
def fillOf (req : OrderRequest) (qty : ℤ) : FillEvent where
  instrumentId := req.instrumentId
  side := req.side
  fillPrice := req.price
  fillQty := qty
  remainingQty := req.qty - qty

/-- An action. An order that is sent while there is no position opens one; otherwise it closes. -/
def step (s : Session F) : Action → Session F
  | .bbo e =>
    { strategy := s.strategy.onBboImpl e
      outstanding := s.outstanding ++ s.sent e
      closing :=
        if s.sent e = [] then s.closing
        else if s.strategy.inventory = 0 then none
        else some s.strategy.closingSide
      lastComputed :=
        if s.strategy.accepts e then some (s.strategy.updated e).computeSignal
        else s.lastComputed }
  | .fill k qty =>
    match s.outstanding[k]? with
    | none => s
    | some req =>
      { s with
        strategy := s.strategy.onFillImpl (fillOf req qty)
        outstanding := s.outstanding.eraseIdx k }
  | .expire k => { s with outstanding := s.outstanding.eraseIdx k }
  | .pop => { s with strategy := s.strategy.popOrder.2 }

/-- A fill is for no more than the quantity of its order. -/
def Valid (s : Session F) : Action → Prop
  | .fill k qty => ∃ req ∈ s.outstanding[k]?, 0 ≤ qty ∧ qty ≤ req.qty
  | _ => True

instance (s : Session F) : DecidablePred s.Valid
  | .bbo _ => .isTrue trivial
  | .fill k qty =>
    inferInstanceAs (Decidable (∃ req ∈ s.outstanding[k]?, 0 ≤ qty ∧ qty ≤ req.qty))
  | .expire _ => .isTrue trivial
  | .pop => .isTrue trivial

/-- What is sent at an event are its requests, as long as the queue has room. -/
lemma sent_eq (s : Session F) (e : BBOEvent) :
    s.sent e = (s.strategy.requests e).take (1024 - s.strategy.orderQueue.size) := by
  rw [sent, contents_onBboImpl, ← SPSCQueue.length_contents, List.drop_take, List.drop_left]

end Session

end Momentum

end QuantTrade
