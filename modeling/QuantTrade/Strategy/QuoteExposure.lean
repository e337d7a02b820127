import QuantTrade.Library.Commitments
import QuantTrade.Strategy.SelfQuote

/-!
# The inventory limit of the market maker

A run of the market maker with the orders it has sent.  An order may be executed in parts as soon as
it is in the queue, until what is left of it is cancelled, refused or expires, whatever the strategy
knows of it.  `on_bbo_impl` reads the inventory once, and other threads may report executions
between this and the quotes.

The strategy only looks at its inventory, not at its orders, so it goes on buying below the limit
however much of its bids is open.  With at most `k` bids open whenever it looks, the inventory
passes the limit by no more than `k + 1` orders less one lot, and nothing that is open can take it
further (`inventory_add_open_le`).
-/

namespace QuantTrade

namespace MarketMaker

open Commitments (openAmount openCount Capped)

/-- The strategy with its orders and what is left of each.  While the market data thread is in
`on_bbo_impl`, `reading` is the event with the inventory that the call has read. -/
structure Trading where
  mm : MarketMaker
  reading : Option (BBOEvent × ℤ)
  orders : List (Commitment OrderRequest)

/-- `on_bbo_impl` with the inventory that the call has read. -/
def onBboWith (mm : MarketMaker) (inv : ℤ) (e : BBOEvent) : MarketMaker :=
  { { mm with inventory := inv }.onBboImpl e with inventory := mm.inventory }

/-- The orders that this call gets into the queue. -/
def quotedWith (mm : MarketMaker) (inv : ℤ) (e : BBOEvent) : List OrderRequest :=
  { mm with inventory := inv }.quoted e

/-- What happens: the market data thread reads the inventory and then quotes, or another thread
calls the strategy.  `fill` is an execution of one of the orders, or of another instrument, and
`done` ends one. -/
inductive Trade where
  | read (e : BBOEvent)
  | quote
  | fill (order : ℕ) (f : FillEvent)
  | done (order : ℕ)
  | ack (a : OrderAck)
  | popOrder
  | popCancel

lemma sameQuotes_onOrderAckImpl (mm : MarketMaker) (a : OrderAck) :
    SameQuotes mm (mm.onOrderAckImpl a) := by
  unfold onOrderAckImpl
  dsimp only
  split
  · exact ⟨rfl, rfl, rfl, rfl, rfl⟩
  · have hpopped : SameQuotes mm { mm with pendingSideQueue := mm.pendingSideQueue.pop.2 } :=
      ⟨rfl, rfl, rfl, rfl, rfl⟩
    split_ifs <;> exact hpopped.trans (sameQuotes_setOrderId ..)

namespace Trading

/-- Orders as commitments to their quantities. -/
def commitments (orders : List OrderRequest) : List (Commitment OrderRequest) :=
  orders.map fun req => ⟨req, req.qty⟩

/-- A strategy that has just been built. -/
def start (instrumentId : ℕ) (spreadTicks orderQty maxInventory : ℤ) : Trading where
  mm := .init instrumentId spreadTicks orderQty maxInventory
  reading := none
  orders := []

/-- The rest of `on_bbo_impl`. -/
def quote (s : Trading) : Trading :=
  match s.reading with
  | none => s
  | some (e, inv) =>
    { mm := s.mm.onBboWith inv e
      reading := none
      orders := s.orders ++ commitments (s.mm.quotedWith inv e) }

/-- One step. -/
def step (s : Trading) : Trade → Trading
  | .read e => if s.reading.isNone then { s with reading := some (e, s.mm.inventory) } else s
  | .quote => s.quote
  | .fill order f =>
    { s with
      mm := s.mm.onFillImpl f
      orders :=
        if f.instrumentId = s.mm.instrumentId then Commitments.draw s.orders order f.fillQty
        else s.orders }
  | .done order => { s with orders := Commitments.void s.orders order }
  | .ack a => { s with mm := s.mm.onOrderAckImpl a }
  | .popOrder => { s with mm := s.mm.popOrder.2 }
  | .popCancel => { s with mm := s.mm.popCancel.2 }

/-- The orders of a side. -/
def onSide (side : Side) (req : OrderRequest) : Bool :=
  req.side = side

/-- An execution is one of an order and of no more than what is left of it. -/
def Executes (s : Trading) : Trade → Prop
  | .fill order f => f.instrumentId = s.mm.instrumentId →
      ∃ c ∈ s.orders[order]?, f.side = c.item.side ∧ 0 ≤ f.fillQty ∧ f.fillQty ≤ c.amount
  | _ => True

/-- At most `k` orders of the side are open when the inventory is read. -/
def AtMost (side : Side) (k : ℕ) (s : Trading) : Trade → Prop
  | .read _ => openCount (onSide side) s.orders ≤ k
  | _ => True

instance (s : Trading) : DecidablePred s.Executes := by
  intro t
  unfold Executes
  cases t <;> infer_instance

instance (side : Side) (k : ℕ) (s : Trading) : DecidablePred (s.AtMost side k) := by
  intro t
  unfold AtMost
  cases t <;> infer_instance

/-- The inventory that there is, in the direction of a side, when all that is open on the side is
executed. -/
def exposure (side : Side) (s : Trading) : ℤ :=
  side.signed s.mm.inventory + openAmount (onSide side) s.orders

/-- How far the inventory can get, in the direction of a side. -/
def limit (orderQty maxInventory : ℤ) (k : ℕ) : ℤ :=
  max 0 (maxInventory - 1 + (k + 1) * orderQty)

/-! ## What a quote adds -/

lemma quoted_sublist (mm : MarketMaker) (e : BBOEvent) :
    (mm.quoted e).Sublist (mm.requests (e.bidPx + e.askPx)) := by
  unfold quoted
  rw [← SPSCQueue.length_contents]
  rcases mm.onBboImpl_eq e with hsame | hrequote
  · rw [hsame, List.drop_length]
    exact List.nil_sublist _
  · rw [hrequote, (mm.requote_frame _).2, List.drop_take, List.drop_left]
    exact List.take_sublist ..

lemma capped_requests (mm : MarketMaker) (hqty : 0 ≤ mm.orderQty) (newSum : ℤ) :
    Capped mm.orderQty (commitments (mm.requests newSum)) := by
  intro c hc
  obtain ⟨req, hreq, rfl⟩ := List.mem_map.mp hc
  have hsize : req.qty = mm.orderQty := by
    rcases List.mem_append.mp hreq with hbid | hask
    · split_ifs at hbid
      · rw [List.mem_singleton.mp hbid]
        rfl
      · cases hbid
    · split_ifs at hask
      · rw [List.mem_singleton.mp hask]
        rfl
      · cases hask
  dsimp only
  omega

/-- The requests of an event on a side: one, of the quantity of the strategy, while the inventory is
below the limit on this side. -/
lemma openAmount_requests (mm : MarketMaker) (newSum : ℤ) (side : Side) :
    openAmount (onSide side) (commitments (mm.requests newSum)) =
      if side.signed mm.inventory < mm.maxInventory then mm.orderQty else 0 := by
  have hask : mm.inventory > -mm.maxInventory ↔ -mm.inventory < mm.maxInventory := by omega
  unfold requests commitments
  simp only [hask]
  by_cases hbuy : mm.inventory < mm.maxInventory <;>
    by_cases hsell : -mm.inventory < mm.maxInventory <;>
    cases side <;> simp [hbuy, hsell, onSide, quoteRequest]

/-- The orders of an event on a side: at most one, of the quantity of the strategy, and only while
the inventory that was read is below the limit on this side. -/
lemma openAmount_quotedWith (mm : MarketMaker) (hqty : 0 ≤ mm.orderQty) (inv : ℤ) (e : BBOEvent)
    (side : Side) :
    Capped mm.orderQty (commitments (mm.quotedWith inv e)) ∧
      openAmount (onSide side) (commitments (mm.quotedWith inv e)) ≤
        if side.signed inv < mm.maxInventory then mm.orderQty else 0 := by
  have hcapped := capped_requests { mm with inventory := inv } hqty (e.bidPx + e.askPx)
  have hsub := (quoted_sublist { mm with inventory := inv } e).map fun req =>
    (⟨req, req.qty⟩ : Commitment OrderRequest)
  refine ⟨fun c hc => hcapped c (hsub.subset hc), ?_⟩
  exact (Commitments.openAmount_le_of_sublist hsub hcapped).trans_eq
    (openAmount_requests { mm with inventory := inv } _ side)

/-! ## The invariant -/

/-- The settings are those of the start, no order is open with more than the quantity of the
strategy, and what the inventory can still become is bounded; while a call that may quote on the
side is under way, by one order less. -/
structure Inv (side : Side) (orderQty maxInventory : ℤ) (k : ℕ) (s : Trading) : Prop where
  orderQty_eq : s.mm.orderQty = orderQty
  maxInventory_eq : s.mm.maxInventory = maxInventory
  capped : Capped orderQty s.orders
  exposure_le : exposure side s ≤ limit orderQty maxInventory k
  reading : ∀ e inv, s.reading = some (e, inv) → side.signed inv < maxInventory →
    exposure side s ≤ maxInventory - 1 + k * orderQty

variable {side : Side} {orderQty maxInventory : ℤ} {k : ℕ} {s s' : Trading}

lemma inv_start (instrumentId : ℕ) (spreadTicks : ℤ) :
    (start instrumentId spreadTicks orderQty maxInventory).Inv side orderQty maxInventory k where
  orderQty_eq := rfl
  maxInventory_eq := rfl
  capped _ hc := by cases hc
  exposure_le := by
    have hzero : exposure side (start instrumentId spreadTicks orderQty maxInventory) = 0 := by
      cases side <;> rfl
    rw [hzero]
    exact le_max_left _ _
  reading e inv hreading := by cases hreading

/-- A step that sends nothing and takes the exposure no further. -/
lemma Inv.of_le (h : s.Inv side orderQty maxInventory k) (hqty : s'.mm.orderQty = s.mm.orderQty)
    (hmax : s'.mm.maxInventory = s.mm.maxInventory) (hcapped : Capped orderQty s'.orders)
    (hreading : s'.reading = s.reading) (hle : exposure side s' ≤ exposure side s) :
    s'.Inv side orderQty maxInventory k where
  orderQty_eq := hqty.trans h.orderQty_eq
  maxInventory_eq := hmax.trans h.maxInventory_eq
  capped := hcapped
  exposure_le := hle.trans h.exposure_le
  reading e inv hread hbelow := hle.trans (h.reading e inv (hreading ▸ hread) hbelow)

/-- An execution moves what is open into the inventory. -/
lemma Inv.fill (h : s.Inv side orderQty maxInventory k) {order : ℕ} {f : FillEvent}
    (hexec : s.Executes (.fill order f)) :
    (s.step (.fill order f)).Inv side orderQty maxInventory k := by
  by_cases hown : f.instrumentId = s.mm.instrumentId
  · obtain ⟨c, hc, hside, hpos, hle⟩ := hexec hown
    have hget : s.orders[order]? = some c := hc
    have hdraw := Commitments.openAmount_draw (p := onSide side) hget f.fillQty
    refine h.of_le ?_ ?_ ?_ rfl ?_
    · simp [step, onFillImpl, hown]
    · simp [step, onFillImpl, hown]
    · simp only [step, hown, if_true]
      exact h.capped.draw hget hpos hle
    · simp only [exposure, step, onFillImpl, hown, if_true, ne_eq, not_true, if_false]
      rw [hdraw]
      rw [onSide, ← hside]
      cases side <;> cases f.side <;> simp <;> omega
  · refine h.of_le ?_ ?_ ?_ rfl ?_
    · simp [step, onFillImpl, hown]
    · simp [step, onFillImpl, hown]
    · simp only [step, hown, if_false]
      exact h.capped
    · simp [exposure, step, onFillImpl, hown]

/-- Reading the inventory: what is open at this moment is at most `k` orders. -/
lemma Inv.read (h : s.Inv side orderQty maxInventory k) (hqty : 0 ≤ orderQty) {e : BBOEvent}
    (hopen : s.AtMost side k (.read e)) : (s.step (.read e)).Inv side orderQty maxInventory k := by
  rw [step]
  split_ifs with hnone
  · refine ⟨h.orderQty_eq, h.maxInventory_eq, h.capped, h.exposure_le, ?_⟩
    rintro e' inv hread hbelow
    obtain ⟨-, rfl⟩ := Prod.mk.injEq .. ▸ Option.some_inj.mp hread
    have hcount : (openCount (onSide side) s.orders : ℤ) * orderQty ≤ k * orderQty :=
      mul_le_mul_of_nonneg_right (by exact_mod_cast hopen) hqty
    have hamount := (Commitments.openAmount_le (p := onSide side) h.capped).trans hcount
    change side.signed s.mm.inventory + openAmount (onSide side) s.orders ≤ _
    omega
  · exact h

/-- Quoting adds an order when the inventory was below the limit. -/
lemma Inv.quote (h : s.Inv side orderQty maxInventory k) (hqty : 0 ≤ orderQty) :
    s.quote.Inv side orderQty maxInventory k := by
  rw [Trading.quote]
  split
  · exact h
  · rename_i e inv hread
    have hsame := sameQuotes_onBboImpl { s.mm with inventory := inv } e
    obtain ⟨hcapped, hplaced⟩ :=
      openAmount_quotedWith s.mm (by rw [h.orderQty_eq]; exact hqty) inv e side
    rw [h.orderQty_eq, h.maxInventory_eq] at hplaced
    rw [h.orderQty_eq] at hcapped
    refine ⟨hsame.orderQty_eq.trans h.orderQty_eq, hsame.maxInventory_eq.trans h.maxInventory_eq,
      h.capped.append hcapped, ?_, fun e' inv' hnone => by cases hnone⟩
    change side.signed s.mm.inventory + openAmount (onSide side) (s.orders ++ _) ≤ _
    rw [Commitments.openAmount_append, ← add_assoc]
    change exposure side s + _ ≤ _
    split_ifs at hplaced with hbelow
    · -- the exposure was bounded when the inventory was read
      have hread := h.reading e inv hread hbelow
      refine le_trans ?_ (le_max_right _ _)
      linarith
    · have hle := h.exposure_le
      linarith

/-- Every step keeps the exposure within the limit. -/
lemma Inv.step (hqty : 0 ≤ orderQty) {t : Trade} (hexec : s.Executes t) (hopen : s.AtMost side k t)
    (h : s.Inv side orderQty maxInventory k) : (s.step t).Inv side orderQty maxInventory k := by
  cases t with
  | read e => exact h.read hqty hopen
  | quote => exact h.quote hqty
  | fill order f => exact h.fill hexec
  | done order =>
    have hvoid := Commitments.openAmount_void_le (p := onSide side) h.capped order
    exact h.of_le rfl rfl (h.capped.void hqty order) rfl (Int.add_le_add_left hvoid _)
  | ack a =>
    have hsame := s.mm.sameQuotes_onOrderAckImpl a
    refine h.of_le hsame.orderQty_eq hsame.maxInventory_eq h.capped rfl ?_
    simp [exposure, Trading.step, hsame.inventory_eq]
  | popOrder => exact h.of_le rfl rfl h.capped rfl le_rfl
  | popCancel => exact h.of_le rfl rfl h.capped rfl le_rfl

/-- **Inventory limit.**  In every run of the market maker in which each execution is one of an
order that is open and at most `k` orders of a side are open whenever the inventory is read, the
inventory in the direction of the side, and also what it becomes when all that is open there is
executed, is at most `maxInventory - 1 + (k + 1) * orderQty`, or 0. -/
theorem inventory_add_open_le (instrumentId : ℕ) (spreadTicks maxInventory : ℤ) {orderQty : ℤ}
    (hqty : 0 ≤ orderQty) (side : Side) (k : ℕ) (trades : List Trade)
    (hexec : Transition.Admissible step Executes
      (start instrumentId spreadTicks orderQty maxInventory) trades)
    (hopen : Transition.Admissible step (AtMost side k)
      (start instrumentId spreadTicks orderQty maxInventory) trades) :
    let s := Transition.run step (start instrumentId spreadTicks orderQty maxInventory) trades
    side.signed s.mm.inventory ≤ max 0 (maxInventory - 1 + (k + 1) * orderQty) ∧
      side.signed s.mm.inventory + openAmount (onSide side) s.orders ≤
        max 0 (maxInventory - 1 + (k + 1) * orderQty) := by
  intro s
  have hinv : s.Inv side orderQty maxInventory k :=
    Transition.invariant_run (fun s t ht hs => hs.step hqty ht.1 ht.2) (hexec.and hopen)
      (inv_start instrumentId spreadTicks)
  have hnonneg : 0 ≤ openAmount (onSide side) s.orders := hinv.capped.openAmount_nonneg
  have hle := hinv.exposure_le
  rw [exposure, limit] at hle
  exact ⟨by linarith, hle⟩

/-- The strategy quotes 10 and its bid is executed; one lot below its limit of 11 it quotes again,
and this bid is executed as well. -/
def twoBids : List Trade :=
  [.read { instrumentId := 1, bidPx := 99, askPx := 101 }, .quote,
    .fill 0 { instrumentId := 1, side := .buy, fillQty := 10 },
    .read { instrumentId := 1, bidPx := 98, askPx := 100 }, .quote,
    .fill 2 { instrumentId := 1, side := .buy, fillQty := 10 }]

/-- No bid is open when the strategy looks, and its inventory gets as far as it can. -/
theorem inventory_add_open_le_reached :
    let s := Transition.run step (start 1 2 10 11) twoBids
    s.mm.inventory = 11 - 1 + (0 + 1) * 10 ∧
      Side.buy.signed s.mm.inventory ≤ max 0 (11 - 1 + ((0 : ℕ) + 1) * 10) ∧
        Side.buy.signed s.mm.inventory + openAmount (onSide .buy) s.orders ≤
          max 0 (11 - 1 + ((0 : ℕ) + 1) * 10) :=
  ⟨by decide +kernel, inventory_add_open_le 1 2 11 (by decide) .buy 0 twoBids (by decide +kernel)
    (by decide +kernel)⟩

end Trading

end MarketMaker

end QuantTrade
