import QuantTrade.Strategy.OrphanedQuotes

/-!
# The distance of the two quotes

`MarketMaker` divides its spread between the two sides and takes one tick off it while there is an
inventory.  So the two quotes of an event are apart by the spread, or by the spread less one tick,
and a spread of one tick leaves them at one price while there is an inventory (`ask_sub_bid`).
-/

namespace QuantTrade

namespace MarketMaker

/-- The requests for the two quotes, before the queue refuses some of them. -/
def requests (mm : MarketMaker) (newSum : ℤ) : List OrderRequest :=
  (if mm.inventory < mm.maxInventory then
    [mm.quoteRequest .buy (mm.quotePrices newSum).1] else []) ++
    if mm.inventory > -mm.maxInventory then
      [mm.quoteRequest .sell (mm.quotePrices newSum).2] else []

/-- The orders that get into the queue at an event. -/
def quoted (mm : MarketMaker) (e : BBOEvent) : List OrderRequest :=
  (mm.onBboImpl e).orderQueue.contents.drop mm.orderQueue.size

variable {mm : MarketMaker} {e : BBOEvent} {bid ask : OrderRequest}

/-! ## What a call leaves alone -/

/-- The fields that decide what is quoted are the same. -/
structure SameQuotes (mm mm' : MarketMaker) : Prop where
  instrumentId_eq : mm'.instrumentId = mm.instrumentId
  spreadTicks_eq : mm'.spreadTicks = mm.spreadTicks
  orderQty_eq : mm'.orderQty = mm.orderQty
  maxInventory_eq : mm'.maxInventory = mm.maxInventory
  inventory_eq : mm'.inventory = mm.inventory

lemma SameQuotes.refl (mm : MarketMaker) : SameQuotes mm mm :=
  ⟨rfl, rfl, rfl, rfl, rfl⟩

lemma SameQuotes.trans {mm₁ mm₂ mm₃ : MarketMaker} (h : SameQuotes mm₁ mm₂)
    (h' : SameQuotes mm₂ mm₃) : SameQuotes mm₁ mm₃ :=
  ⟨h'.1.trans h.1, h'.2.trans h.2, h'.3.trans h.3, h'.4.trans h.4, h'.5.trans h.5⟩

lemma sameQuotes_setOrderId (mm : MarketMaker) (side : Side) (id : ℕ) :
    SameQuotes mm (mm.setOrderId side id) := by
  cases side <;> exact ⟨rfl, rfl, rfl, rfl, rfl⟩

lemma sameQuotes_cancelSide (mm : MarketMaker) (side : Side) :
    SameQuotes mm (mm.cancelSide side) ∧ (mm.cancelSide side).orderQueue = mm.orderQueue := by
  unfold cancelSide
  split_ifs
  · let pushed := { mm with cancelQueue := (mm.cancelQueue.push (mm.orderId side)).1 }
    have hpushed : SameQuotes mm pushed := ⟨rfl, rfl, rfl, rfl, rfl⟩
    exact ⟨hpushed.trans (sameQuotes_setOrderId pushed side 0), orderQueue_setOrderId ..⟩
  · exact ⟨SameQuotes.refl mm, rfl⟩

lemma sameQuotes_cancelActiveOrders (mm : MarketMaker) :
    SameQuotes mm mm.cancelActiveOrders ∧ mm.cancelActiveOrders.orderQueue = mm.orderQueue := by
  obtain ⟨hbuy, hqueue⟩ := mm.sameQuotes_cancelSide .buy
  obtain ⟨hsell, hqueue'⟩ := (mm.cancelSide .buy).sameQuotes_cancelSide .sell
  exact ⟨hbuy.trans hsell, hqueue'.trans hqueue⟩

/-- A quote is appended as long as there is room. -/
lemma quoteSide_frame (mm : MarketMaker) (isOpen : Prop) [Decidable isOpen] (side : Side)
    (price : ℤ) :
    SameQuotes mm (if isOpen then mm.quoteSide side price else mm) ∧
      (if isOpen then mm.quoteSide side price else mm).orderQueue.contents =
        (mm.orderQueue.contents ++
          if isOpen then [mm.quoteRequest side price] else []).take 1024 := by
  by_cases hopen : isOpen
  · simp only [hopen, if_true]
    unfold quoteSide sendOrder
    dsimp only
    split_ifs <;> exact ⟨⟨rfl, rfl, rfl, rfl, rfl⟩, mm.orderQueue.contents_push_eq_take _⟩
  · simp only [hopen, if_false]
    rw [List.append_nil, SPSCQueue.take_contents]
    exact ⟨SameQuotes.refl mm, rfl⟩

/-- The requests depend on no more. -/
lemma SameQuotes.quoteRequest_eq {mm mm' : MarketMaker} (h : SameQuotes mm mm') (side : Side)
    (price : ℤ) : mm'.quoteRequest side price = mm.quoteRequest side price := by
  rw [quoteRequest, h.instrumentId_eq, h.orderQty_eq, quoteRequest]

lemma SameQuotes.quotePrices_eq {mm mm' : MarketMaker} (h : SameQuotes mm mm') (newSum : ℤ) :
    mm'.quotePrices newSum = mm.quotePrices newSum := by
  rw [quotePrices, h.spreadTicks_eq, h.inventory_eq, quotePrices]

/-! ## What an event sends -/

/-- Quoting sends a request for each side that the inventory leaves open. -/
lemma quote_frame (mm : MarketMaker) (bidPrice askPrice inv : ℤ) :
    SameQuotes mm (mm.quote bidPrice askPrice inv) ∧
      (mm.quote bidPrice askPrice inv).orderQueue.contents =
        (mm.orderQueue.contents ++
          ((if inv < mm.maxInventory then [mm.quoteRequest .buy bidPrice] else []) ++
            if inv > -mm.maxInventory then [mm.quoteRequest .sell askPrice]
            else [])).take 1024 := by
  obtain ⟨hbid, hbidQueue⟩ := mm.quoteSide_frame (inv < mm.maxInventory) .buy bidPrice
  unfold quote
  dsimp only
  generalize (if inv < mm.maxInventory then mm.quoteSide .buy bidPrice else mm) = mm' at *
  obtain ⟨hask, haskQueue⟩ := mm'.quoteSide_frame (inv > -mm'.maxInventory) .sell askPrice
  refine ⟨hbid.trans hask, ?_⟩
  rw [haskQueue, hbidQueue, BoundedFifo.take_append_take, List.append_assoc,
    hbid.quoteRequest_eq, hbid.maxInventory_eq]

/-- The quotes of an event are its requests, as long as the queue has room. -/
lemma requote_frame (mm : MarketMaker) (newSum : ℤ) :
    SameQuotes mm (mm.requote newSum) ∧
      (mm.requote newSum).orderQueue.contents =
        (mm.orderQueue.contents ++ mm.requests newSum).take 1024 := by
  have hnoted : SameQuotes mm { mm with lastMid := newSum } := ⟨rfl, rfl, rfl, rfl, rfl⟩
  obtain ⟨hcancel, hqueue⟩ := sameQuotes_cancelActiveOrders { mm with lastMid := newSum }
  unfold requote
  generalize { mm with lastMid := newSum }.cancelActiveOrders = mm' at *
  have hnow := hnoted.trans hcancel
  obtain ⟨hquote, hcontents⟩ :=
    mm'.quote_frame (mm'.quotePrices newSum).1 (mm'.quotePrices newSum).2 mm'.inventory
  refine ⟨hnow.trans hquote, ?_⟩
  rw [hcontents, hqueue, hnow.quoteRequest_eq, hnow.quoteRequest_eq, hnow.quotePrices_eq,
    hnow.inventory_eq, hnow.maxInventory_eq]
  rfl

lemma sameQuotes_onBboImpl (mm : MarketMaker) (e : BBOEvent) : SameQuotes mm (mm.onBboImpl e) := by
  rcases mm.onBboImpl_eq e with h | h
  · rw [h]
    exact SameQuotes.refl mm
  · rw [h]
    exact (mm.requote_frame _).1

/-- An order that gets into the queue at an event is one of its requests. -/
lemma mem_requests (h : bid ∈ mm.quoted e) : bid ∈ mm.requests (e.bidPx + e.askPx) := by
  unfold quoted at h
  rw [← SPSCQueue.length_contents] at h
  rcases mm.onBboImpl_eq e with hsame | hrequote
  · rw [hsame, List.drop_length] at h
    exact absurd h List.not_mem_nil
  · rw [hrequote, (mm.requote_frame _).2, List.drop_take, List.drop_left] at h
    exact List.mem_of_mem_take h

/-- A request is for the price of its side. -/
lemma price_of_mem_requests {req : OrderRequest} {newSum : ℤ} (h : req ∈ mm.requests newSum) :
    req.price =
      if req.side = .buy then (mm.quotePrices newSum).1 else (mm.quotePrices newSum).2 := by
  rcases List.mem_append.mp h with hbid | hask
  · split_ifs at hbid
    · rw [List.mem_singleton.mp hbid]
      rfl
    · exact absurd hbid List.not_mem_nil
  · split_ifs at hask
    · rw [List.mem_singleton.mp hask]
      rfl
    · exact absurd hask List.not_mem_nil

/-- The inventory takes one tick off the spread. -/
lemma quotePrices_sub (mm : MarketMaker) (newSum : ℤ) :
    (mm.quotePrices newSum).2 - (mm.quotePrices newSum).1 =
      mm.spreadTicks - if mm.inventory = 0 then 0 else 1 := by
  unfold quotePrices
  dsimp only
  split_ifs <;> omega

/-! ## Runs -/

/-- No call changes the spread. -/
lemma spreadTicks_step (s : Session) (event : Event) :
    (s.step event).mm.spreadTicks = s.mm.spreadTicks := by
  cases event with
  | bbo e => exact (s.mm.sameQuotes_onBboImpl e).spreadTicks_eq
  | fill f =>
    simp only [Session.step, onFillImpl]
    split_ifs <;> rfl
  | ack a =>
    simp only [Session.step, onOrderAckImpl]
    split
    · rfl
    · split_ifs <;> exact (sameQuotes_setOrderId ..).spreadTicks_eq
  | popOrder => rfl
  | popCancel => rfl

/-- **The distance of the quotes.**  In any state that the calls lead to, a bid and an ask that one
event gets into the queue are apart by the spread, or by one tick less while there is an inventory:
the bid is below the ask, but for a spread of one tick and an inventory, where they are at one
price. -/
theorem ask_sub_bid {spreadTicks : ℤ} (hspread : 1 ≤ spreadTicks) (instrumentId : ℕ)
    (orderQty maxInventory : ℤ) (events : List Event) (e : BBOEvent) :
    let mm := (Transition.run Session.step
      (Session.start instrumentId spreadTicks orderQty maxInventory) events).mm
    ∀ bid ∈ mm.quoted e, ∀ ask ∈ mm.quoted e, bid.side = .buy → ask.side = .sell →
      ask.price - bid.price = spreadTicks - (if mm.inventory = 0 then 0 else 1) ∧
        (bid.price < ask.price ↔ ¬(spreadTicks = 1 ∧ mm.inventory ≠ 0)) := by
  intro mm bid hbid ask hask hbuy hsell
  have hsame : mm.spreadTicks = spreadTicks :=
    Transition.invariant_run_of_step (P := fun s : Session => s.mm.spreadTicks = spreadTicks)
      (fun s event hs => (spreadTicks_step s event).trans hs) rfl events
  have hdistance := mm.quotePrices_sub (e.bidPx + e.askPx)
  have hbidPrice := price_of_mem_requests (mem_requests hbid)
  have haskPrice := price_of_mem_requests (mem_requests hask)
  rw [if_pos hbuy] at hbidPrice
  rw [if_neg (by rw [hsell]; decide)] at haskPrice
  rw [← hbidPrice, ← haskPrice, hsame] at hdistance
  refine ⟨hdistance, ?_⟩
  split_ifs at hdistance <;> omega

/-- The rule for a spread of two ticks and a long position: the quotes are at 100 and 101. -/
theorem ask_sub_bid_long :
    let mm := (Transition.run Session.step (Session.start 1 2 10 100)
      [.fill { instrumentId := 1, fillQty := 3 }]).mm
    (101 : ℤ) - 100 = 2 - (if mm.inventory = 0 then 0 else 1) ∧
      ((100 : ℤ) < 101 ↔ ¬((2 : ℤ) = 1 ∧ mm.inventory ≠ 0)) :=
  ask_sub_bid (by decide) 1 10 100 [.fill { instrumentId := 1, fillQty := 3 }]
    { instrumentId := 1, bidPx := 100, askPx := 102 }
    { instrumentId := 1, side := .buy, type := .limit, price := 100, qty := 10 }
    (by decide +kernel)
    { instrumentId := 1, side := .sell, type := .limit, price := 101, qty := 10 }
    (by decide +kernel)
    rfl rfl

/-- A fill, or the best prices of a market that is not crossed. -/
def Event.IsFillOrValidBbo : Event → Prop
  | .bbo e => e.isValidBbo = true
  | .fill _ => True
  | _ => False

/-- With a spread of one tick and a long position of one lot, both quotes are at 101. -/
theorem not_bid_lt_ask_oneTick :
    ¬∀ (spreadTicks : ℤ), 1 ≤ spreadTicks → ∀ (instrumentId : ℕ) (orderQty maxInventory : ℤ)
      (events : List Event) (e : BBOEvent), (∀ event ∈ events, event.IsFillOrValidBbo) →
      e.isValidBbo = true →
        let mm := (Transition.run Session.step
          (Session.start instrumentId spreadTicks orderQty maxInventory) events).mm
        ∀ bid ∈ mm.quoted e, ∀ ask ∈ mm.quoted e, bid.side = .buy → ask.side = .sell →
          bid.price < ask.price := by
  intro h
  have hlt := h 1 (by decide) 1 10 100 [.fill { instrumentId := 1, fillQty := 1 }]
    { instrumentId := 1, bidPx := 100, askPx := 102 } (by simp [Event.IsFillOrValidBbo])
    (by decide)
    { instrumentId := 1, side := .buy, type := .limit, price := 101, qty := 10 }
    (by decide +kernel)
    { instrumentId := 1, side := .sell, type := .limit, price := 101, qty := 10 }
    (by decide +kernel)
    rfl rfl
  exact absurd hlt (by decide)

end MarketMaker

end QuantTrade
