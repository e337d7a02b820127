import Mathlib.Tactic.Ring
import QuantTrade.Main.RiskPosition
import QuantTrade.Strategy.MarketMaker

/-!
# The inventory of the market maker

The main program with its strategy: the market data thread hands every event to
`MarketMaker::on_bbo_impl`, and the strategy thread takes the orders from the queue of the
strategy. No thread calls `on_fill_impl`, so the inventory stays 0 while the position manager
counts the fills. It agrees with the position, whenever all queues are drained, exactly when as
many bids as offers of the market maker were executed until then (`inventoryControl_iff`).
-/

namespace QuantTrade

open Transition (run)
open RiskPosition (requests filledOn requests_step)

/-! ## What the market maker sends -/

namespace MarketMaker

/-- From `mm` to `mm'` the strategy sends these orders, of its own instrument and quantity, and only
on the sides that its inventory leaves open. -/
structure Quotes (mm mm' : MarketMaker) (orders : List OrderRequest) : Prop where
  orderQueue : mm'.orderQueue = orders.foldl (fun queue req => (queue.push req).1) mm.orderQueue
  instrumentId : mm'.instrumentId = mm.instrumentId
  orderQty : mm'.orderQty = mm.orderQty
  maxInventory : mm'.maxInventory = mm.maxInventory
  inventory : mm'.inventory = mm.inventory
  own : ∀ req ∈ orders, req.instrumentId = mm.instrumentId ∧ req.qty = mm.orderQty
  bids : ∀ req ∈ orders, req.side = .buy → mm.inventory < mm.maxInventory
  offers : ∀ req ∈ orders, req.side = .sell → -mm.maxInventory < mm.inventory

variable {mm mm' mm'' : MarketMaker}

/-- A change of other fields sends nothing. -/
lemma Quotes.none (horder : mm'.orderQueue = mm.orderQueue)
    (hinstrument : mm'.instrumentId = mm.instrumentId) (hqty : mm'.orderQty = mm.orderQty)
    (hmax : mm'.maxInventory = mm.maxInventory) (hinventory : mm'.inventory = mm.inventory) :
    Quotes mm mm' [] :=
  ⟨horder, hinstrument, hqty, hmax, hinventory, by simp, by simp, by simp⟩

lemma Quotes.append {orders orders' : List OrderRequest} (h : Quotes mm mm' orders)
    (h' : Quotes mm' mm'' orders') : Quotes mm mm'' (orders ++ orders') where
  orderQueue := by rw [h'.orderQueue, h.orderQueue, List.foldl_append]
  instrumentId := h'.instrumentId.trans h.instrumentId
  orderQty := h'.orderQty.trans h.orderQty
  maxInventory := h'.maxInventory.trans h.maxInventory
  inventory := h'.inventory.trans h.inventory
  own req hreq := by
    rcases List.mem_append.mp hreq with hreq | hreq
    · exact h.own req hreq
    · rw [← h.instrumentId, ← h.orderQty]
      exact h'.own req hreq
  bids req hreq hside := by
    rcases List.mem_append.mp hreq with hreq | hreq
    · exact h.bids req hreq hside
    · rw [← h.inventory, ← h.maxInventory]
      exact h'.bids req hreq hside
  offers req hreq hside := by
    rcases List.mem_append.mp hreq with hreq | hreq
    · exact h.offers req hreq hside
    · rw [← h.inventory, ← h.maxInventory]
      exact h'.offers req hreq hside

/-- Cancelling sends no order. -/
lemma quotes_cancelSide (mm : MarketMaker) (side : Side) : Quotes mm (mm.cancelSide side) [] := by
  unfold cancelSide
  split_ifs
  · cases side <;> exact .none rfl rfl rfl rfl rfl
  · exact .none rfl rfl rfl rfl rfl

/-- The quote of a side that is open. -/
lemma quotes_quoteSide {side : Side} (price : ℤ)
    (hbid : side = .buy → mm.inventory < mm.maxInventory)
    (hoffer : side = .sell → -mm.maxInventory < mm.inventory) :
    Quotes mm (mm.quoteSide side price) [mm.quoteRequest side price] := by
  have hown : ∀ req ∈ [mm.quoteRequest side price],
      req.instrumentId = mm.instrumentId ∧ req.qty = mm.orderQty := by
    intro req hreq
    rw [List.mem_singleton.mp hreq]
    exact ⟨rfl, rfl⟩
  have hbids : ∀ req ∈ [mm.quoteRequest side price],
      req.side = .buy → mm.inventory < mm.maxInventory := by
    intro req hreq hside
    rw [List.mem_singleton.mp hreq] at hside
    exact hbid hside
  have hoffers : ∀ req ∈ [mm.quoteRequest side price],
      req.side = .sell → -mm.maxInventory < mm.inventory := by
    intro req hreq hside
    rw [List.mem_singleton.mp hreq] at hside
    exact hoffer hside
  unfold quoteSide sendOrder
  dsimp only
  split_ifs
  · exact ⟨rfl, rfl, rfl, rfl, rfl, hown, hbids, hoffers⟩
  · exact ⟨rfl, rfl, rfl, rfl, rfl, hown, hbids, hoffers⟩

/-- Quoting sends the orders of the open sides. -/
lemma exists_quotes_quote (mm : MarketMaker) (bidPrice askPrice : ℤ) :
    ∃ orders, Quotes mm (mm.quote bidPrice askPrice mm.inventory) orders := by
  have hbid : ∃ orders, Quotes mm
      (if mm.inventory < mm.maxInventory then mm.quoteSide .buy bidPrice else mm) orders := by
    split_ifs with hopen
    · exact ⟨_, quotes_quoteSide bidPrice (fun _ => hopen) (fun h => by cases h)⟩
    · exact ⟨[], .none rfl rfl rfl rfl rfl⟩
  obtain ⟨bids, hbids⟩ := hbid
  unfold quote
  dsimp only
  generalize (if mm.inventory < mm.maxInventory then mm.quoteSide .buy bidPrice else mm) = quoted
    at hbids ⊢
  split_ifs with hopen
  · rw [← hbids.inventory] at hopen
    exact ⟨_, hbids.append (quotes_quoteSide askPrice (fun h => by cases h) (fun _ => hopen))⟩
  · exact ⟨bids, hbids⟩

/-- A change of the best prices leads to orders on the open sides. -/
lemma exists_quotes_onBboImpl (mm : MarketMaker) (e : BBOEvent) :
    ∃ orders, Quotes mm (mm.onBboImpl e) orders := by
  rcases mm.onBboImpl_eq e with hsame | hrequote
  · rw [hsame]
    exact ⟨[], .none rfl rfl rfl rfl rfl⟩
  · rw [hrequote]
    have hmid : Quotes mm { mm with lastMid := e.bidPx + e.askPx } [] := .none rfl rfl rfl rfl rfl
    have hcancel := (hmid.append (quotes_cancelSide _ .buy)).append (quotes_cancelSide _ .sell)
    obtain ⟨orders, horders⟩ := exists_quotes_quote _ _ _
    exact ⟨_, hcancel.append horders⟩

end MarketMaker

/-! ## A pipeline with one strategy -/

/-- The OMS accepts positive fills only. -/
lemma OMS.fillQty_pos_of_onFill {oms : OMS} {fill : FillEvent} (h : (oms.onFill fill).2 = true) :
    0 < fill.fillQty := by
  rw [onFill_snd] at h
  cases ho : oms.orderAt fill.clientOrderId with
  | none =>
    rw [ho] at h
    cases h
  | some o =>
    rw [ho, Option.map_some, Option.getD_some,
      OrderStateMachine.applyFill_snd_eq_true_iff] at h
    exact h.1

namespace Pipeline

variable {s s' : Pipeline} {a : Action}

/-- The fills between the OMS and the position manager. -/
def trackedFills (s : Pipeline) : List FillEvent :=
  s.posFill ++ s.oms.fillTracker.fillQueue.contents

/-- All requests and fills are those of one instrument and one quantity; what passed the risk check
has a slot in the tables, and what the OMS accepted is positive. -/
structure OneStrategy (id : ℕ) (qty : ℤ) (s : Pipeline) : Prop where
  requests : ∀ req ∈ requests s, req.instrumentId = id ∧ req.qty = qty
  pending : ∀ req ∈ s.pending, req.instrumentId < maxInstruments
  fills : ∀ fill ∈ s.fillsInFlight,
    fill.instrumentId = id ∧ fill.fillQty = qty ∧ fill.instrumentId < maxInstruments
  tracked : ∀ fill ∈ s.trackedFills, 0 < fill.fillQty

/-- A request that waits for the gateway waited there before, or has just been checked. -/
lemma pending_step (hs : Step s a s') {req : OrderRequest} (hreq : req ∈ s'.pending) :
    req ∈ s.pending ∨ req.instrumentId < maxInstruments := by
  cases hs with
  | omsPass reading checked h hok =>
    right
    simp only [pending, List.mem_singleton] at hreq
    subst hreq
    have hrefuses := ((s.risk.check_snd reading.monotonicNs req).mp hok).2
    by_contra hid
    exact hrefuses (Or.inr fun hadmits => hid hadmits.1)
  | omsSend reading sent order h => cases order <;> simp [pending] at hreq
  | _ => simp_all [pending]

/-- A fill in flight was there before, apart from its id, or it is for a request that waited for the
gateway. -/
lemma fillsInFlight_step (hs : Step s a s') {fill : FillEvent} (hfill : fill ∈ s'.fillsInFlight) :
    (∃ f ∈ s.fillsInFlight, fill.instrumentId = f.instrumentId ∧ fill.fillQty = f.fillQty) ∨
      ∃ req ∈ s.pending, fill.instrumentId = req.instrumentId ∧ fill.fillQty = req.qty := by
  cases hs with
  | omsSend reading req order h =>
    rw [fillsInFlight, ← List.append_assoc] at hfill
    rcases List.mem_append.mp hfill with hold | hnew
    · exact Or.inl ⟨fill, hold, rfl, rfl⟩
    · rw [List.mem_singleton.mp hnew]
      exact Or.inr ⟨req, by simp [pending, h], rfl, rfl⟩
  | gwFill cloid first rest h hq =>
    left
    simp only [fillsInFlight, gwFill, h, hq, List.mem_append, List.mem_cons, List.not_mem_nil,
      or_false] at hfill ⊢
    rcases hfill with (hold | rfl) | hrest
    · exact ⟨fill, Or.inl hold, rfl, rfl⟩
    · exact ⟨first, Or.inr (Or.inl rfl), rfl, rfl⟩
    · exact ⟨fill, Or.inr (Or.inr hrest), rfl, rfl⟩
  | gwOnFill handed cloid h =>
    refine Or.inl ⟨fill, ?_, rfl, rfl⟩
    simp only [fillsInFlight, gwFill, posFill, h, OMS.fillTracker_onFill, List.mem_append,
      List.mem_singleton, List.not_mem_nil, or_false] at hfill ⊢
    split_ifs at hfill
    · rw [FillTracker.contents_onFill] at hfill
      rcases hfill with (hpos | hpush) | hsim
      · exact Or.inl (Or.inl (Or.inl hpos))
      · rcases BoundedFifo.mem_of_mem_push hpush with hold | hnew
        · exact Or.inl (Or.inl (Or.inr hold))
        · exact Or.inl (Or.inr hnew)
      · exact Or.inr hsim
    · tauto
  | gwRelease handed cloid h =>
    refine Or.inl ⟨fill, ?_, rfl, rfl⟩
    split_ifs at hfill <;> simpa [fillsInFlight, gwFill, posFill, h] using hfill
  | posPop first rest h hq =>
    refine Or.inl ⟨fill, ?_, rfl, rfl⟩
    simpa [fillsInFlight, gwFill, posFill, h, hq] using hfill
  | omsAck reading order h =>
    exact Or.inl ⟨fill, by simpa [fillsInFlight, gwFill, posFill, OMS.onAck] using hfill, rfl, rfl⟩
  | posUpdate first h =>
    refine Or.inl ⟨fill, ?_, rfl, rfl⟩
    simp_all [fillsInFlight, gwFill, posFill]
  | _ => exact Or.inl ⟨fill, by simp_all [fillsInFlight, gwFill, posFill], rfl, rfl⟩

/-- A fill that the OMS accepts is positive. -/
lemma trackedFills_step (hs : Step s a s') {fill : FillEvent} (hfill : fill ∈ s'.trackedFills) :
    fill ∈ s.trackedFills ∨ 0 < fill.fillQty := by
  cases hs with
  | gwOnFill handed cloid h =>
    simp only [trackedFills, posFill, OMS.fillTracker_onFill, List.mem_append] at hfill ⊢
    cases hok : (s.oms.onFill handed).2 with
    | false =>
      rw [hok] at hfill
      exact Or.inl hfill
    | true =>
      rw [hok, if_pos rfl, FillTracker.contents_onFill] at hfill
      rcases hfill with hpos | hpush
      · exact Or.inl (Or.inl hpos)
      · rcases BoundedFifo.mem_of_mem_push hpush with hold | rfl
        · exact Or.inl (Or.inr hold)
        · exact Or.inr (OMS.fillQty_pos_of_onFill hok)
  | gwRelease handed cloid h =>
    left
    split_ifs at hfill <;> simpa [trackedFills, posFill] using hfill
  | posPop first rest h hq =>
    left
    simpa [trackedFills, posFill, h, hq] using hfill
  | omsAck reading order h =>
    left
    simpa [trackedFills, posFill, OMS.onAck] using hfill
  | _ => simp_all [trackedFills, posFill]

/-- The position manager changes when it is handed the fill that the position thread has popped. -/
lemma posMgr_step (hs : Step s a s') :
    (∃ fill, a = .pos ∧ s.posFill = [fill] ∧ s'.posMgr = s.posMgr.onFill fill) ∨
      (a = .pos → s.posFill = []) ∧ s'.posMgr = s.posMgr := by
  cases hs with
  | posUpdate fill h => exact Or.inl ⟨fill, rfl, by simp [posFill, h], rfl⟩
  | posEmpty h hq => exact Or.inr ⟨fun _ => by simp [posFill, h], rfl⟩
  | posPop fill rest h hq => exact Or.inr ⟨fun _ => by simp [posFill, h], rfl⟩
  | posDone fill h => exact Or.inr ⟨fun _ => by simp [posFill, h], rfl⟩
  | _ => exact Or.inr ⟨fun ha => absurd ha (by simp), rfl⟩

lemma OneStrategy.step {id : ℕ} {qty : ℤ} (h : s.OneStrategy id qty) (hs : Step s a s')
    (ha : ∀ req, a = .sendOrder req → req.instrumentId = id ∧ req.qty = qty) :
    s'.OneStrategy id qty where
  requests req hreq := by
    rcases requests_step hs hreq with hold | hnew
    · exact h.requests req hold
    · exact ha req hnew
  pending req hreq := by
    rcases pending_step hs hreq with hold | hlt
    · exact h.pending req hold
    · exact hlt
  fills fill hfill := by
    rcases fillsInFlight_step hs hfill with ⟨f, hf, hid, hqty⟩ | ⟨req, hreq, hid, hqty⟩
    · rw [hid, hqty]
      exact h.fills f hf
    · have hown := h.requests req (List.mem_append_right _ hreq)
      rw [hid, hqty]
      exact ⟨hown.1, hown.2, h.pending req hreq⟩
  tracked fill hfill := by
    rcases trackedFills_step hs hfill with hold | hpos
    · exact h.tracked fill hold
    · exact hpos

end Pipeline

/-! ## The program with its strategy -/

/-- The threads and the strategy.  The queue of orders is the one in the pipeline.  `booked` are the
fills that were handed to the position manager. -/
structure TradingSystem where
  pipeline : Pipeline
  mm : MarketMaker
  booked : List FillEvent

/-- One call: an event of the market data, or one of the threads goes on. -/
inductive TradingAction where
  | bbo (e : BBOEvent)
  | strategy
  | oms (reading : Reading)
  | gw
  | pos

namespace TradingSystem

/-- The program as it starts. -/
def init (cfg : Config) (nowNs : ℤ) (mm : MarketMaker) : TradingSystem where
  pipeline := .init cfg nowNs
  mm := mm
  booked := []

/-- The strategy with its queue. -/
def marketMaker (s : TradingSystem) : MarketMaker :=
  { s.mm with orderQueue := s.pipeline.orderQueue }

/-- The fill that a call hands to the position manager. -/
def books (s : TradingSystem) : Action → List FillEvent
  | .pos => s.pipeline.posFill
  | _ => []

/-- A call of a thread. -/
def call (s : TradingSystem) (a : Action) : TradingSystem :=
  { s with
    pipeline := s.pipeline.step a
    booked := s.booked ++ s.books a }

/-- A step of the program. -/
def step (s : TradingSystem) : TradingAction → TradingSystem
  | .bbo e =>
    let mm := s.marketMaker.onBboImpl e
    { s with
      pipeline := { s.pipeline with orderQueue := mm.orderQueue }
      mm := mm }
  | .strategy => s.call .strategy
  | .oms reading => s.call (.oms reading)
  | .gw => s.call .gw
  | .pos => s.call .pos

/-- The program after a run, from its start with a new strategy. -/
def after (cfg : Config) (nowNs : ℤ) (instrumentId : ℕ) (spreadTicks orderQty maxInventory : ℤ)
    (as : List TradingAction) : TradingSystem :=
  run step (init cfg nowNs (.init instrumentId spreadTicks orderQty maxInventory)) as

/-- The position of the market maker's instrument. -/
def netQty (s : TradingSystem) : ℤ :=
  s.pipeline.posMgr.getNetQty s.mm.instrumentId

/-- The inventory is the position, so that no event of the market data makes the strategy bid when
the position has reached the limit on the long side, or offer when it has on the short side. -/
structure InventoryControl (s : TradingSystem) : Prop where
  inventory : s.mm.inventory = s.netQty
  bids : s.mm.maxInventory ≤ s.netQty →
    ∀ e, ∀ req ∈ (s.marketMaker.onBboImpl e).orderQueue.contents, req.side ≠ .buy
  offers : s.netQty ≤ -s.mm.maxInventory →
    ∀ e, ∀ req ∈ (s.marketMaker.onBboImpl e).orderQueue.contents, req.side ≠ .sell

/-- As many bids as offers were executed. -/
def Balanced (s : TradingSystem) : Prop :=
  s.booked.countP (·.side = .buy) = s.booked.countP (·.side = .sell)

/-! ## The invariant -/

/-- Nothing changes the inventory, and the position is that of the booked fills, which are all of
the strategy's instrument and quantity. -/
structure Inv (s : TradingSystem) : Prop where
  wired : s.pipeline.Wired
  inventory : s.mm.inventory = 0
  oneStrategy : s.pipeline.OneStrategy s.mm.instrumentId s.mm.orderQty
  booked : ∀ fill ∈ s.booked, fill.instrumentId = s.mm.instrumentId ∧
    fill.fillQty = s.mm.orderQty ∧ fill.instrumentId < maxInstruments ∧ 0 < fill.fillQty
  netQty : s.netQty = (s.booked.map (filledOn s.mm.instrumentId)).sum

lemma inv_init (cfg : Config) (nowNs : ℤ) {mm : MarketMaker} (hmm : mm.inventory = 0) :
    (init cfg nowNs mm).Inv where
  wired := Pipeline.wired_init cfg nowNs
  inventory := hmm
  oneStrategy := by
    constructor <;> simp [init, Pipeline.init, requests, Pipeline.pending, Pipeline.fillsInFlight,
      Pipeline.trackedFills, Pipeline.posFill, Pipeline.gwFill, SimGateway.init, OMS.init,
      FillTracker.init]
  booked := by simp [init]
  netQty := by simp [init, TradingSystem.netQty, Pipeline.init, PositionManager.getNetQty,
    PositionManager.init]

/-- Orders that are sent one after the other. -/
lemma run_sendOrder (p : Pipeline) (orders : List OrderRequest) :
    run Pipeline.step p (orders.map .sendOrder) =
      { p with orderQueue := orders.foldl (fun queue req => (queue.push req).1) p.orderQueue } := by
  induction orders generalizing p with
  | nil => rfl
  | cons req orders ih =>
    rw [List.map_cons, Transition.run_cons, ih]
    rfl

/-- The strategy's own orders keep the pipeline the strategy's. -/
lemma oneStrategy_run {id : ℕ} {qty : ℤ} {p : Pipeline} (hw : p.Wired) (h : p.OneStrategy id qty)
    {orders : List OrderRequest} (hown : ∀ req ∈ orders, req.instrumentId = id ∧ req.qty = qty) :
    (run Pipeline.step p (orders.map .sendOrder)).Wired ∧
      (run Pipeline.step p (orders.map .sendOrder)).OneStrategy id qty := by
  induction orders generalizing p with
  | nil => exact ⟨hw, h⟩
  | cons req orders ih =>
    have hs := Pipeline.step_spec hw (.sendOrder req)
    have hreq : ∀ r, Action.sendOrder req = .sendOrder r → r.instrumentId = id ∧ r.qty = qty := by
      rintro r ⟨⟩
      exact hown req List.mem_cons_self
    exact ih (hw.step hs) (h.step hs hreq) fun r hr => hown r (List.mem_cons_of_mem req hr)

/-- A change of the best prices keeps the invariant. -/
lemma Inv.step_bbo {s : TradingSystem} (h : s.Inv) (e : BBOEvent) : (s.step (.bbo e)).Inv := by
  obtain ⟨orders, hquotes⟩ := s.marketMaker.exists_quotes_onBboImpl e
  have hpipeline : (s.step (.bbo e)).pipeline =
      run Pipeline.step s.pipeline (orders.map .sendOrder) := by
    rw [run_sendOrder]
    exact congrArg (fun queue => { s.pipeline with orderQueue := queue }) hquotes.orderQueue
  obtain ⟨hw, hone⟩ := oneStrategy_run h.wired h.oneStrategy hquotes.own
  have hid : (s.step (.bbo e)).mm.instrumentId = s.mm.instrumentId := hquotes.instrumentId
  have hqty : (s.step (.bbo e)).mm.orderQty = s.mm.orderQty := hquotes.orderQty
  constructor
  · rw [hpipeline]
    exact hw
  · exact hquotes.inventory.trans h.inventory
  · rw [hpipeline, hid, hqty]
    exact hone
  · rw [hid, hqty]
    exact h.booked
  · rw [TradingSystem.netQty, hid]
    exact h.netQty

/-- A call of a thread keeps the invariant. -/
lemma Inv.call {s : TradingSystem} (h : s.Inv) {a : Action} (ha : ∀ req, a ≠ .sendOrder req) :
    (s.call a).Inv := by
  have hs := Pipeline.step_spec h.wired a
  have hbooks : ∀ fill ∈ s.books a, fill.instrumentId = s.mm.instrumentId ∧
      fill.fillQty = s.mm.orderQty ∧ fill.instrumentId < maxInstruments ∧ 0 < fill.fillQty := by
    intro fill hfill
    have hpos : fill ∈ s.pipeline.posFill := by
      cases a with
      | pos => exact hfill
      | _ => cases hfill
    have hflight : fill ∈ s.pipeline.fillsInFlight := by simp [Pipeline.fillsInFlight, hpos]
    obtain ⟨hid, hqty, hlt⟩ := h.oneStrategy.fills fill hflight
    exact ⟨hid, hqty, hlt, h.oneStrategy.tracked fill (List.mem_append_left _ hpos)⟩
  constructor
  · exact h.wired.step hs
  · exact h.inventory
  · exact h.oneStrategy.step hs fun req hreq => absurd hreq (ha req)
  · intro fill hfill
    rcases List.mem_append.mp hfill with hold | hnew
    · exact h.booked fill hold
    · exact hbooks fill hnew
  · change (s.pipeline.step a).posMgr.getNetQty s.mm.instrumentId =
      ((s.booked ++ s.books a).map (filledOn s.mm.instrumentId)).sum
    rw [List.map_append, List.sum_append, ← h.netQty]
    rcases Pipeline.posMgr_step hs with ⟨fill, rfl, hpos, hmgr⟩ | ⟨hnone, hmgr⟩
    · have hbook : s.books .pos = [fill] := hpos
      obtain ⟨hid, -, hlt, -⟩ := hbooks fill (by rw [hbook]; exact List.mem_singleton_self fill)
      rw [hid] at hlt
      rw [hmgr, PositionManager.getNetQty_onFill _ _ hlt, hbook, List.map_singleton,
        List.sum_singleton]
      rfl
    · have hbook : s.books a = [] := by
        cases a with
        | pos => exact hnone rfl
        | _ => rfl
      rw [hmgr, hbook, List.map_nil, List.sum_nil, add_zero]
      rfl

lemma Inv.step {s : TradingSystem} (h : s.Inv) (a : TradingAction) : (s.step a).Inv := by
  cases a with
  | bbo e => exact h.step_bbo e
  | strategy => exact h.call (by simp)
  | oms reading => exact h.call (by simp)
  | gw => exact h.call (by simp)
  | pos => exact h.call (by simp)

lemma inv_after (cfg : Config) (nowNs : ℤ) (instrumentId : ℕ)
    (spreadTicks orderQty maxInventory : ℤ) (as : List TradingAction) :
    (after cfg nowNs instrumentId spreadTicks orderQty maxInventory as).Inv :=
  Transition.invariant_run_of_step (fun _ a hs => hs.step a) (inv_init cfg nowNs rfl) as

/-! ## Inventory and position -/

/-- The position of fills of one quantity. -/
lemma sum_filledOn {id : ℕ} {qty : ℤ} {fills : List FillEvent}
    (hown : ∀ fill ∈ fills, fill.instrumentId = id ∧ fill.fillQty = qty) :
    (fills.map (filledOn id)).sum =
      qty * (fills.countP (·.side = .buy) - fills.countP (·.side = .sell) : ℤ) := by
  induction fills with
  | nil => simp
  | cons fill fills ih =>
    obtain ⟨hid, hqty⟩ := hown fill List.mem_cons_self
    rw [List.map_cons, List.sum_cons, ih fun f hf => hown f (List.mem_cons_of_mem fill hf)]
    cases hside : fill.side with
    | buy =>
      have hfirst : filledOn id fill = qty := by simp [filledOn, hid, hqty, hside]
      simp [hfirst, hside]
      ring
    | sell =>
      have hfirst : filledOn id fill = -qty := by simp [filledOn, hid, hqty, hside]
      simp [hfirst, hside]
      ring

/-- The inventory is the position when as many bids as offers were executed. -/
lemma Inv.inventory_eq_iff {s : TradingSystem} (h : s.Inv) :
    s.mm.inventory = s.netQty ↔ s.Balanced := by
  have hsum := sum_filledOn fun fill hfill => ⟨(h.booked fill hfill).1, (h.booked fill hfill).2.1⟩
  rw [h.inventory, h.netQty, hsum, Balanced, eq_comm, mul_eq_zero, sub_eq_zero, Nat.cast_inj]
  constructor
  · rintro (hzero | hsame)
    · -- fills of quantity 0 are not accepted, so there are none
      have hnone : s.booked = [] := by
        rw [List.eq_nil_iff_forall_not_mem]
        intro fill hfill
        obtain ⟨-, hqty, -, hpos⟩ := h.booked fill hfill
        omega
      rw [hnone]
      rfl
    · exact hsame
  · exact Or.inr

/-- The orders in the queue were there before or have been sent. -/
lemma mem_of_mem_foldl_push {queue : SPSCQueue OrderRequest 1024} {orders : List OrderRequest}
    {req : OrderRequest}
    (hreq : req ∈ (orders.foldl (fun queue req => (queue.push req).1) queue).contents) :
    req ∈ queue.contents ∨ req ∈ orders := by
  induction orders generalizing queue with
  | nil => exact Or.inl hreq
  | cons first orders ih =>
    rcases ih hreq with hpush | hrest
    · rw [SPSCQueue.contents_push] at hpush
      rcases BoundedFifo.mem_of_mem_push hpush with hold | rfl
      · exact Or.inl hold
      · exact Or.inr List.mem_cons_self
    · exact Or.inr (List.mem_cons_of_mem first hrest)

/-- When the queue was empty, the orders in it are those of the event. -/
lemma exists_quotes_of_drained {s : TradingSystem} (hdrained : s.pipeline.Drained) (e : BBOEvent) :
    ∃ orders, MarketMaker.Quotes s.marketMaker (s.marketMaker.onBboImpl e) orders ∧
      ∀ req ∈ (s.marketMaker.onBboImpl e).orderQueue.contents, req ∈ orders := by
  obtain ⟨orders, hquotes⟩ := s.marketMaker.exists_quotes_onBboImpl e
  refine ⟨orders, hquotes, ?_⟩
  intro req hreq
  rw [hquotes.orderQueue] at hreq
  rcases mem_of_mem_foldl_push hreq with hold | hnew
  · rw [show s.marketMaker.orderQueue.contents = [] from hdrained.2.1] at hold
    cases hold
  · exact hnew

/-- In a drained state an inventory that is the position stops the quotes. -/
lemma inventoryControl_of_eq {s : TradingSystem} (hdrained : s.pipeline.Drained)
    (h : s.mm.inventory = s.netQty) : s.InventoryControl := by
  refine ⟨h, ?_, ?_⟩
  · intro hlimit e req hreq hside
    obtain ⟨orders, hquotes, hmem⟩ := exists_quotes_of_drained hdrained e
    have hopen : s.mm.inventory < s.mm.maxInventory := hquotes.bids req (hmem req hreq) hside
    omega
  · intro hlimit e req hreq hside
    obtain ⟨orders, hquotes, hmem⟩ := exists_quotes_of_drained hdrained e
    have hopen : -s.mm.maxInventory < s.mm.inventory := hquotes.offers req (hmem req hreq) hside
    omega

/-- **Inventory control.**  In every run of the threads, the inventory is the position and stops the
quotes at its limits in all drained states exactly when in all of them as many bids as offers of the
market maker have been executed. -/
theorem inventoryControl_iff (cfg : Config) (nowNs : ℤ) (instrumentId : ℕ)
    (spreadTicks orderQty maxInventory : ℤ) (as : List TradingAction) :
    (∀ part, part <+: as →
        (after cfg nowNs instrumentId spreadTicks orderQty maxInventory part).pipeline.Drained →
          (after cfg nowNs instrumentId spreadTicks orderQty maxInventory part).InventoryControl) ↔
      ∀ part, part <+: as →
        (after cfg nowNs instrumentId spreadTicks orderQty maxInventory part).pipeline.Drained →
          (after cfg nowNs instrumentId spreadTicks orderQty maxInventory part).Balanced := by
  refine forall₃_congr fun part _ hdrained => ?_
  rw [← (inv_after cfg nowNs instrumentId spreadTicks orderQty maxInventory part).inventory_eq_iff]
  exact ⟨fun h => h.inventory, inventoryControl_of_eq hdrained⟩

/-- Orders up to a notional of 1000. -/
def smallNotional : Config where
  maxNotional := 1000

/-- The strategy quotes 10 at 99 and at 101; the bid passes the risk check and is executed, the
offer exceeds the notional. -/
def bidExecuted : List TradingAction :=
  [.bbo { instrumentId := 42, bidPx := 99, askPx := 101 }] ++ .replicate 4 .strategy ++
    .replicate 8 (.oms {}) ++ .replicate 4 .gw ++ .replicate 3 .pos

/-- After the bid of 10 is executed the position is at the limit of 10, and the inventory is 0. -/
theorem not_inventoryControl_bidExecuted :
    ¬∀ (cfg : Config) (nowNs : ℤ) (instrumentId : ℕ) (spreadTicks orderQty maxInventory : ℤ)
      (as : List TradingAction),
      (after cfg nowNs instrumentId spreadTicks orderQty maxInventory as).pipeline.Drained →
        (after cfg nowNs instrumentId spreadTicks orderQty maxInventory as).InventoryControl := by
  intro hclaim
  have hdrained : (after smallNotional 0 42 2 10 10 bidExecuted).pipeline.Drained := by
    decide +kernel
  have hinventory : (after smallNotional 0 42 2 10 10 bidExecuted).mm.inventory = 0 := by
    decide +kernel
  have hnet : (after smallNotional 0 42 2 10 10 bidExecuted).netQty = 10 := by
    decide +kernel
  have hcontrol := (hclaim smallNotional 0 42 2 10 10 bidExecuted hdrained).inventory
  rw [hinventory, hnet] at hcontrol
  exact absurd hcontrol (by decide)

end TradingSystem

end QuantTrade
