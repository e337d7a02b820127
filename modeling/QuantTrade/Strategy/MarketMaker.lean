import QuantTrade.Infra.SPSCQueue
import QuantTrade.MarketData.Types
import QuantTrade.Oms.Order

/-!
# The market maker

`MarketMaker` of `src/strategy/market_maker.{hpp,cpp}` with its base class `StrategyBase`, one call
at a time.  It quotes both sides around the middle of the best prices; when the middle moves it
cancels the quotes whose ids it knows and quotes again.  The id of a quote comes with its
acknowledgement, which is matched to a side by the order of the submissions.
-/

namespace QuantTrade

/-- The state of the strategy, with the queue of `StrategyBase`. -/
structure MarketMaker where
  instrumentId : ℕ
  /-- Strategy to OMS. -/
  orderQueue : SPSCQueue OrderRequest 1024
  spreadTicks : ℤ
  orderQty : ℤ
  maxInventory : ℤ
  /-- The net position, positive when long. -/
  inventory : ℤ
  /-- The sum of the best prices at the last quote, twice the middle. -/
  lastMid : ℤ
  /-- The id of the quote on each side; 0 is none. -/
  bidOrderId : ℕ
  askOrderId : ℕ
  cancelQueue : SPSCQueue ℕ 256
  /-- The sides of the orders that are not acknowledged yet. -/
  pendingSideQueue : SPSCQueue Side 64

namespace MarketMaker

/-- The constructor. -/
def init (instrumentId : ℕ) (spreadTicks orderQty maxInventory : ℤ) : MarketMaker where
  instrumentId := instrumentId
  orderQueue := .empty (fun _ => {}) SPSCQueue.capacity_1024
  spreadTicks := spreadTicks
  orderQty := orderQty
  maxInventory := maxInventory
  inventory := 0
  lastMid := 0
  bidOrderId := 0
  askOrderId := 0
  cancelQueue := .empty (fun _ => 0) SPSCQueue.capacity_256
  pendingSideQueue := .empty (fun _ => .buy) SPSCQueue.capacity_64

/-- `StrategyBase::send_order`. -/
def sendOrder (mm : MarketMaker) (req : OrderRequest) : MarketMaker × Bool :=
  ({ mm with orderQueue := (mm.orderQueue.push req).1 }, (mm.orderQueue.push req).2)

/-- `StrategyBase::pop_order`. -/
def popOrder (mm : MarketMaker) : Option OrderRequest × MarketMaker :=
  (mm.orderQueue.pop.1, { mm with orderQueue := mm.orderQueue.pop.2 })

/-- `pop_cancel`. -/
def popCancel (mm : MarketMaker) : Option ℕ × MarketMaker :=
  (mm.cancelQueue.pop.1, { mm with cancelQueue := mm.cancelQueue.pop.2 })

/-- The id of the quote on a side. -/
def orderId (mm : MarketMaker) : Side → ℕ
  | .buy => mm.bidOrderId
  | .sell => mm.askOrderId

/-- Store the id of the quote on a side. -/
def setOrderId (mm : MarketMaker) (side : Side) (id : ℕ) : MarketMaker :=
  match side with
  | .buy => { mm with bidOrderId := id }
  | .sell => { mm with askOrderId := id }

/-- One half of `cancel_active_orders`: the quote on a side is cancelled when there is one. -/
def cancelSide (mm : MarketMaker) (side : Side) : MarketMaker :=
  if mm.orderId side ≠ 0 then
    { mm with cancelQueue := (mm.cancelQueue.push (mm.orderId side)).1 }.setOrderId side 0
  else mm

/-- `cancel_active_orders`. -/
def cancelActiveOrders (mm : MarketMaker) : MarketMaker :=
  (mm.cancelSide .buy).cancelSide .sell

/-- The request for a quote; its `strategy_ts_ns` stays 0. -/
def quoteRequest (mm : MarketMaker) (side : Side) (price : ℤ) : OrderRequest where
  instrumentId := mm.instrumentId
  side := side
  type := .limit
  price := price
  qty := mm.orderQty

/-- One half of `quote`: the order of a side is sent, and its side is noted when it was accepted. -/
def quoteSide (mm : MarketMaker) (side : Side) (price : ℤ) : MarketMaker :=
  let sent := mm.sendOrder (mm.quoteRequest side price)
  if sent.2 then { sent.1 with pendingSideQueue := (sent.1.pendingSideQueue.push side).1 }
  else sent.1

/-- `quote`: the sides that the inventory leaves open. -/
def quote (mm : MarketMaker) (bidPrice askPrice inv : ℤ) : MarketMaker :=
  let mm := if inv < mm.maxInventory then mm.quoteSide .buy bidPrice else mm
  if inv > -mm.maxInventory then mm.quoteSide .sell askPrice else mm

/-- The prices of the two quotes; the divisions truncate. -/
def quotePrices (mm : MarketMaker) (newSum : ℤ) : ℤ × ℤ :=
  let mid := newSum.tdiv 2
  let halfSpread := mm.spreadTicks.tdiv 2
  let bidPrice := mid - halfSpread
  let askPrice := mid + (mm.spreadTicks - halfSpread)
  (if mm.inventory < 0 then bidPrice + 1 else bidPrice,
    if mm.inventory > 0 then askPrice - 1 else askPrice)

/-- The last steps of `on_bbo_impl`: the old quotes are cancelled, new ones sent. -/
def requote (mm : MarketMaker) (newSum : ℤ) : MarketMaker :=
  let mm := { mm with lastMid := newSum }.cancelActiveOrders
  mm.quote (mm.quotePrices newSum).1 (mm.quotePrices newSum).2 mm.inventory

/-- `on_bbo_impl`. -/
def onBboImpl (mm : MarketMaker) (e : BBOEvent) : MarketMaker :=
  if e.instrumentId ≠ mm.instrumentId then mm
  else if !e.isValidBbo then mm
  else
    let newSum := e.bidPx + e.askPx
    let oldSum := mm.lastMid
    let delta := if newSum > oldSum then newSum - oldSum else oldSum - newSum
    if oldSum ≠ 0 ∧ delta = 0 then mm
    else mm.requote newSum

/-- `on_fill_impl`. -/
def onFillImpl (mm : MarketMaker) (f : FillEvent) : MarketMaker :=
  if f.instrumentId ≠ mm.instrumentId then mm
  else { mm with inventory := mm.inventory + f.side.signed f.fillQty }

/-- `on_order_ack_impl`: the id of a rejected order is 0. -/
def onOrderAckImpl (mm : MarketMaker) (a : OrderAck) : MarketMaker :=
  let popped := { mm with pendingSideQueue := mm.pendingSideQueue.pop.2 }
  match mm.pendingSideQueue.pop.1 with
  | none => popped
  | some side =>
    if a.status = .rejected then popped.setOrderId side 0
    else popped.setOrderId side a.clientOrderId

/-! ## What the calls do to the queues -/

/-- No queue is full. -/
def HasRoom (mm : MarketMaker) : Prop :=
  mm.orderQueue.size < 1024 ∧ mm.cancelQueue.size < 256 ∧ mm.pendingSideQueue.size < 64

instance (mm : MarketMaker) : Decidable mm.HasRoom :=
  inferInstanceAs (Decidable (_ ∧ _ ∧ _))

variable (mm : MarketMaker)

@[simp] lemma orderId_setOrderId (side : Side) (id : ℕ) :
    (mm.setOrderId side id).orderId = Function.update mm.orderId side id := by
  funext side'
  cases side <;> cases side' <;> rfl

@[simp] lemma orderQueue_setOrderId (side : Side) (id : ℕ) :
    (mm.setOrderId side id).orderQueue = mm.orderQueue := by
  cases side <;> rfl

@[simp] lemma cancelQueue_setOrderId (side : Side) (id : ℕ) :
    (mm.setOrderId side id).cancelQueue = mm.cancelQueue := by
  cases side <;> rfl

@[simp] lemma pendingSideQueue_setOrderId (side : Side) (id : ℕ) :
    (mm.setOrderId side id).pendingSideQueue = mm.pendingSideQueue := by
  cases side <;> rfl

/-- The id that is cancelled on a side. -/
def activeId (side : Side) : List ℕ :=
  if mm.orderId side ≠ 0 then [mm.orderId side] else []

variable {mm}

lemma mem_activeId {side : Side} {id : ℕ} :
    id ∈ mm.activeId side ↔ id = mm.orderId side ∧ id ≠ 0 := by
  unfold activeId
  split_ifs with h
  · simp only [List.mem_singleton]
    constructor
    · rintro rfl
      exact ⟨rfl, h⟩
    · exact And.left
  · simp only [List.not_mem_nil, false_iff, not_and, not_not]
    rintro rfl
    exact not_not.mp h

/-- What cancelling the quote of a side does, when it leaves room in the queue. -/
lemma cancelSide_spec {side : Side} (h : (mm.cancelSide side).HasRoom) :
    mm.HasRoom ∧ (mm.cancelSide side).orderQueue = mm.orderQueue ∧
      (mm.cancelSide side).pendingSideQueue = mm.pendingSideQueue ∧
      (mm.cancelSide side).cancelQueue.contents = mm.cancelQueue.contents ++ mm.activeId side ∧
      (mm.cancelSide side).orderId = Function.update mm.orderId side 0 := by
  unfold cancelSide activeId at *
  split_ifs with hid
  · rw [if_pos hid] at h
    obtain ⟨horder, hcancel, hpending⟩ := h
    simp only [orderQueue_setOrderId, cancelQueue_setOrderId, pendingSideQueue_setOrderId] at *
    obtain ⟨hcontents, -, hroom⟩ := SPSCQueue.push_of_room hcancel
    exact ⟨⟨horder, hroom, hpending⟩, trivial, trivial, hcontents, orderId_setOrderId ..⟩
  · rw [if_neg hid] at h
    refine ⟨h, rfl, rfl, (List.append_nil _).symm, ?_⟩
    rw [not_not] at hid
    rw [← hid, Function.update_eq_self]

/-- What cancelling the active orders does. -/
lemma cancelActiveOrders_spec (h : mm.cancelActiveOrders.HasRoom) :
    mm.cancelActiveOrders.orderQueue = mm.orderQueue ∧
      mm.cancelActiveOrders.pendingSideQueue = mm.pendingSideQueue ∧
      mm.cancelActiveOrders.cancelQueue.contents =
        mm.cancelQueue.contents ++ (mm.activeId .buy ++ mm.activeId .sell) ∧
      ∀ side, mm.cancelActiveOrders.orderId side = 0 := by
  unfold cancelActiveOrders at *
  obtain ⟨hroom, horder, hpending, hcancel, hid⟩ := cancelSide_spec h
  obtain ⟨-, horder', hpending', hcancel', hid'⟩ := cancelSide_spec hroom
  refine ⟨horder.trans horder', hpending.trans hpending', ?_, ?_⟩
  · have hsell : (mm.cancelSide .buy).activeId .sell = mm.activeId .sell := by
      unfold activeId
      rw [hid', Function.update_of_ne (by decide)]
    rw [hcancel, hcancel', hsell, List.append_assoc]
  · intro side
    rw [hid, hid']
    cases side <;> rfl

/-- What quoting a side does, when it leaves room in the queues. -/
lemma quoteSide_spec {side : Side} {price : ℤ} (h : (mm.quoteSide side price).HasRoom) :
    mm.HasRoom ∧ (mm.quoteSide side price).cancelQueue = mm.cancelQueue ∧
      (mm.quoteSide side price).orderId = mm.orderId ∧
      (mm.quoteSide side price).orderQueue.contents =
        mm.orderQueue.contents ++ [mm.quoteRequest side price] ∧
      (mm.quoteSide side price).pendingSideQueue.contents =
        mm.pendingSideQueue.contents ++ [side] := by
  have hroom : (mm.orderQueue.push (mm.quoteRequest side price)).1.size < 1024 := by
    have hsize := h.1
    unfold quoteSide sendOrder at hsize
    dsimp only at hsize
    split at hsize <;> exact hsize
  obtain ⟨hcontents, hok, horder⟩ := SPSCQueue.push_of_room hroom
  unfold quoteSide sendOrder at *
  simp only [hok, if_true] at *
  obtain ⟨-, hcancel, hpending⟩ := h
  obtain ⟨hsides, -, hside⟩ := SPSCQueue.push_of_room hpending
  refine ⟨⟨horder, hcancel, hside⟩, trivial, ?_, hcontents, hsides⟩
  funext side'
  cases side' <;> rfl

/-- What quoting does: some requests are sent, and their sides are noted. -/
lemma quote_spec {bidPrice askPrice inv : ℤ} (h : (mm.quote bidPrice askPrice inv).HasRoom) :
    mm.HasRoom ∧ (mm.quote bidPrice askPrice inv).cancelQueue = mm.cancelQueue ∧
      (mm.quote bidPrice askPrice inv).orderId = mm.orderId ∧
      ∃ orders : List OrderRequest,
        (mm.quote bidPrice askPrice inv).orderQueue.contents = mm.orderQueue.contents ++ orders ∧
        (mm.quote bidPrice askPrice inv).pendingSideQueue.contents =
          mm.pendingSideQueue.contents ++ orders.map OrderRequest.side := by
  unfold quote at *
  dsimp only at *
  split_ifs at * with hbid hask hask
  · obtain ⟨hroom, hcancel, hid, horder, hside⟩ := quoteSide_spec h
    obtain ⟨hroom', hcancel', hid', horder', hside'⟩ := quoteSide_spec hroom
    refine ⟨hroom', hcancel.trans hcancel', hid.trans hid',
      [mm.quoteRequest .buy bidPrice, (mm.quoteSide .buy bidPrice).quoteRequest .sell askPrice],
      ?_, ?_⟩
    · rw [horder, horder', List.append_assoc, List.singleton_append]
    · rw [hside, hside', List.append_assoc]
      rfl
  · obtain ⟨hroom, hcancel, hid, horder, hside⟩ := quoteSide_spec h
    exact ⟨hroom, hcancel, hid, _, horder, hside⟩
  · obtain ⟨hroom, hcancel, hid, horder, hside⟩ := quoteSide_spec h
    exact ⟨hroom, hcancel, hid, _, horder, hside⟩
  · exact ⟨h, rfl, rfl, [], by simp, by simp⟩

/-- What quoting again does, when it leaves room in the queues: the ids that are known are cancelled
and forgotten, and some requests are sent. -/
lemma requote_spec {newSum : ℤ} (h : (mm.requote newSum).HasRoom) :
    (∀ side, (mm.requote newSum).orderId side = 0) ∧
      (mm.requote newSum).cancelQueue.contents =
        mm.cancelQueue.contents ++ (mm.activeId .buy ++ mm.activeId .sell) ∧
      ∃ orders : List OrderRequest,
        (mm.requote newSum).orderQueue.contents = mm.orderQueue.contents ++ orders ∧
        (mm.requote newSum).pendingSideQueue.contents =
          mm.pendingSideQueue.contents ++ orders.map OrderRequest.side := by
  unfold requote at *
  obtain ⟨hroom, hcancel, hid, orders, horder, hside⟩ := quote_spec h
  obtain ⟨horder', hside', hcancel', hid'⟩ := cancelActiveOrders_spec hroom
  refine ⟨?_, ?_, orders, ?_, ?_⟩
  · intro side
    rw [hid, hid']
  · rw [hcancel, hcancel']
    rfl
  · rw [horder, horder']
  · rw [hside, hside']

/-- What an acknowledgement does when it is for an order of the side. -/
lemma onOrderAckImpl_spec {a : OrderAck} {side : Side} {rest : List Side}
    (h : mm.pendingSideQueue.contents = side :: rest) :
    (mm.onOrderAckImpl a).orderQueue = mm.orderQueue ∧
      (mm.onOrderAckImpl a).cancelQueue = mm.cancelQueue ∧
      (mm.onOrderAckImpl a).pendingSideQueue.contents = rest ∧
      (mm.onOrderAckImpl a).orderId =
        Function.update mm.orderId side (if a.status = .rejected then 0 else a.clientOrderId) := by
  have hpop : mm.pendingSideQueue.pop.1 = some side := by
    rw [SPSCQueue.pop_fst, h, List.head?_cons]
  have hrest : mm.pendingSideQueue.pop.2.contents = rest := by
    rw [SPSCQueue.contents_pop, h, List.tail_cons]
  unfold onOrderAckImpl
  simp only [hpop]
  split
  · simp only [orderQueue_setOrderId, cancelQueue_setOrderId, pendingSideQueue_setOrderId, hrest,
      orderId_setOrderId, true_and]
    rfl
  · simp only [orderQueue_setOrderId, cancelQueue_setOrderId, pendingSideQueue_setOrderId, hrest,
      orderId_setOrderId, true_and]
    rfl

/-- A change of the best prices leads to nothing or to new quotes. -/
lemma onBboImpl_eq (mm : MarketMaker) (e : BBOEvent) :
    mm.onBboImpl e = mm ∨ mm.onBboImpl e = mm.requote (e.bidPx + e.askPx) := by
  unfold onBboImpl
  split
  · exact Or.inl rfl
  · split
    · exact Or.inl rfl
    · dsimp only
      split
      · split
        · exact Or.inl rfl
        · exact Or.inr rfl
      · split
        · exact Or.inl rfl
        · exact Or.inr rfl

end MarketMaker

end QuantTrade
