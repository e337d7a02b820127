import QuantTrade.Backtest.SimExchange
import QuantTrade.Library.Transition

/-!
# The market of an execution

The exchange keeps the orders of all instruments in one queue and executes them against every
quote. The executions of a run are those of the right market exactly when no valid quote finds a
waiting order of another instrument that it can execute (`fills_in_market_iff`).
-/

namespace QuantTrade

open Transition (run Admissible)

/-- A call of the exchange. -/
inductive SimCall where
  | sendNewOrder (req : OrderRequest)
  | processBbo (bbo : BBOEvent)
  | popAck
  | popFill
  deriving DecidableEq, Repr

/-- The exchange with the record of its orders and of its fills, each with the quote during which it
was made. -/
structure SimSession where
  exchange : SimExchange
  sent : List OrderRequest := []
  emitted : List (BBOEvent × FillEvent) := []

namespace SimSession

/-- A session with a new exchange. -/
def init (slippageTicks : ℚ) (scaled : ℤ → ℚ) : SimSession where
  exchange := .init slippageTicks scaled

/-- A call, and what is recorded of it. -/
def step (s : SimSession) : SimCall → SimSession
  | .sendNewOrder req => { s with
      exchange := s.exchange.sendNewOrder req
      sent := s.sent ++ [req] }
  | .processBbo bbo =>
    let exchange := s.exchange.processBbo bbo
    let fills := exchange.fillQueue.drop s.exchange.fillQueue.length
    { s with
      exchange := exchange
      emitted := s.emitted ++ fills.map (bbo, ·) }
  | .popAck => { s with exchange := s.exchange.popAck.2 }
  | .popFill => { s with exchange := s.exchange.popFill.2 }

/-- The order with this client order id. -/
def orderOf (s : SimSession) (clientOrderId : ℕ) : Option OrderRequest :=
  s.sent[clientOrderId - 1]?

/-- The fill was made during a valid quote of the order's instrument, at the price that the quote
has for the order's side. -/
def InMarket (s : SimSession) (bbo : BBOEvent) (fill : FillEvent) : Prop :=
  ∃ req, s.orderOf fill.clientOrderId = some req ∧ fill.instrumentId = req.instrumentId ∧
    bbo.isValidBbo = true ∧ bbo.instrumentId = req.instrumentId ∧
    fill.fillPrice = SimExchange.fillPrice bbo req.side

/-- No waiting order of another instrument can be executed by the quote. -/
def SameMarket (s : SimSession) : SimCall → Prop
  | .processBbo bbo => bbo.isValidBbo = true → ∀ entry ∈ s.exchange.pendingOrders,
      s.exchange.canFill bbo entry.req = true → 0 < s.exchange.fillQty entry.req →
        entry.req.instrumentId = bbo.instrumentId
  | _ => True

/-! ## Entries and orders -/

/-- An entry of the queue is what is left of the order with its id. -/
def Holds (s : SimSession) (entry : PendingEntry) : Prop :=
  ∃ req, s.orderOf entry.clientOrderId = some req ∧ entry.req = { req with qty := entry.req.qty }

/-- The ids of the exchange number the orders, and every entry belongs to one. -/
structure Linked (s : SimSession) : Prop where
  next : s.exchange.nextClientOrderId = s.sent.length + 1
  entries : ∀ entry ∈ s.exchange.pendingOrders, s.Holds entry

lemma linked_init (slippageTicks : ℚ) (scaled : ℤ → ℚ) : (init slippageTicks scaled).Linked where
  next := rfl
  entries := by simp [init, SimExchange.init]

/-- An order keeps its id when others are sent. -/
lemma orderOf_send {s : SimSession} {id : ℕ} {req : OrderRequest} (h : s.orderOf id = some req)
    (other : OrderRequest) : (s.step (.sendNewOrder other)).orderOf id = some req := by
  obtain ⟨hlt, hget⟩ := List.getElem?_eq_some_iff.mp h
  simp only [orderOf, step]
  rw [List.getElem?_append_left hlt]
  exact h

/-- What is left of an entry belongs to the same order. -/
lemma Holds.leftover {s : SimSession} {bbo : BBOEvent} {entry rest : PendingEntry}
    (h : s.Holds entry) (hrest : s.exchange.leftover bbo entry = some rest) : s.Holds rest := by
  obtain ⟨req, horder, hreq⟩ := h
  unfold SimExchange.leftover at hrest
  split_ifs at hrest with hcan hexec
  · cases hrest
    refine ⟨req, horder, ?_⟩
    rw [hreq]
  · cases hrest
    exact ⟨req, horder, hreq⟩

/-- A call that leaves the queue, the ids and the orders alone keeps the link. -/
lemma Linked.mono {s s' : SimSession} (h : s.Linked)
    (hpending : s'.exchange.pendingOrders = s.exchange.pendingOrders)
    (hnext : s'.exchange.nextClientOrderId = s.exchange.nextClientOrderId)
    (hsent : s'.sent = s.sent) : s'.Linked where
  next := by rw [hnext, hsent, h.next]
  entries := by
    intro entry hentry
    obtain ⟨req, horder, hreq⟩ := h.entries entry (hpending ▸ hentry)
    refine ⟨req, ?_, hreq⟩
    rw [orderOf, hsent]
    exact horder

/-- Every call keeps the link. -/
lemma Linked.step {s : SimSession} (h : s.Linked) (c : SimCall) : (s.step c).Linked := by
  cases c with
  | sendNewOrder req =>
    refine ⟨?_, ?_⟩
    · simp only [SimSession.step, SimExchange.sendNewOrder, List.length_append,
        List.length_singleton, h.next]
    · intro entry hentry
      rcases List.mem_append.mp hentry with hold | hnew
      · obtain ⟨req', horder, hrest⟩ := h.entries entry hold
        exact ⟨req', orderOf_send horder req, hrest⟩
      · rw [List.mem_singleton.mp hnew]
        refine ⟨req, ?_, rfl⟩
        simp [orderOf, SimSession.step, SimExchange.newEntry, h.next]
  | processBbo bbo =>
    refine ⟨?_, ?_⟩
    · simp only [SimSession.step, SimExchange.processBbo_eq, h.next]
    · intro entry hentry
      simp only [SimSession.step, SimExchange.processBbo_eq] at hentry
      split_ifs at hentry with hvalid
      · obtain ⟨before, hbefore, hleft⟩ := List.mem_filterMap.mp hentry
        exact (h.entries before hbefore).leftover hleft
      · exact h.entries entry hentry
  | popAck =>
    exact h.mono (SimExchange.pendingOrders_popAck _) (SimExchange.nextClientOrderId_popAck _) rfl
  | popFill =>
    exact h.mono (SimExchange.pendingOrders_popFill _) (SimExchange.nextClientOrderId_popFill _) rfl

/-! ## The executions of a quote -/

/-- A quote records the fills of the orders it executes. -/
lemma emitted_processBbo (s : SimSession) (bbo : BBOEvent) :
    (s.step (.processBbo bbo)).emitted =
      s.emitted ++
        (s.exchange.matched bbo).map fun entry => (bbo, s.exchange.fillOf bbo entry) := by
  simp only [step, SimExchange.processBbo_eq, List.drop_left, List.map_map, Function.comp_def]

/-- An execution is in the market when its order is of the quote's instrument. -/
lemma inMarket_fillOf_iff {s : SimSession} (h : s.Linked) {bbo : BBOEvent} {entry : PendingEntry}
    (hentry : entry ∈ s.exchange.matched bbo) :
    (s.step (.processBbo bbo)).InMarket bbo (s.exchange.fillOf bbo entry) ↔
      entry.req.instrumentId = bbo.instrumentId := by
  obtain ⟨hvalid, hmem, -, -⟩ := SimExchange.mem_matched.mp hentry
  obtain ⟨req, horder, hreq⟩ := h.entries entry hmem
  have hinstrument : entry.req.instrumentId = req.instrumentId := by rw [hreq]
  have hside : entry.req.side = req.side := by rw [hreq]
  constructor
  · rintro ⟨req', horder', -, -, hbbo, -⟩
    have heq : some req = some req' := horder.symm.trans horder'
    rw [hinstrument, Option.some.inj heq, hbbo]
  · intro hsame
    refine ⟨req, horder, hinstrument, hvalid, ?_, ?_⟩
    · rw [← hsame, hinstrument]
    · simp only [SimExchange.fillOf, hside]

/-- All recorded fills are in their markets. -/
def AllInMarket (s : SimSession) : Prop :=
  ∀ p ∈ s.emitted, s.InMarket p.1 p.2

/-- A call that records nothing and keeps the orders keeps the fills in their markets. -/
lemma AllInMarket.mono {s s' : SimSession} (h : s.AllInMarket)
    (horders : ∀ id req, s.orderOf id = some req → s'.orderOf id = some req)
    (hemitted : s'.emitted = s.emitted) : s'.AllInMarket := by
  intro p hp
  rw [hemitted] at hp
  obtain ⟨req, horder, hrest⟩ := h p hp
  exact ⟨req, horders _ _ horder, hrest⟩

/-- A call keeps the fills in their markets exactly when it meets the condition. -/
lemma allInMarket_step_iff {s : SimSession} (hlinked : s.Linked) (h : s.AllInMarket) (c : SimCall) :
    (s.step c).AllInMarket ↔ s.SameMarket c := by
  cases c with
  | sendNewOrder req =>
    exact iff_of_true (h.mono (fun _ _ ho => orderOf_send ho req) rfl) trivial
  | popAck => exact iff_of_true (h.mono (fun _ _ ho => ho) rfl) trivial
  | popFill => exact iff_of_true (h.mono (fun _ _ ho => ho) rfl) trivial
  | processBbo bbo =>
    constructor
    · intro hall hvalid entry hmem hcan hpos
      have hentry := SimExchange.mem_matched.mpr ⟨hvalid, hmem, hcan, hpos⟩
      rw [← inMarket_fillOf_iff hlinked hentry]
      apply hall (bbo, s.exchange.fillOf bbo entry)
      rw [emitted_processBbo]
      exact List.mem_append_right _ (List.mem_map_of_mem hentry)
    · intro hsame p hp
      rw [emitted_processBbo] at hp
      rcases List.mem_append.mp hp with hold | hnew
      · exact h p hold
      · obtain ⟨entry, hentry, rfl⟩ := List.mem_map.mp hnew
        obtain ⟨hvalid, hmem, hcan, hpos⟩ := SimExchange.mem_matched.mp hentry
        exact (inMarket_fillOf_iff hlinked hentry).mpr (hsame hvalid entry hmem hcan hpos)

/-- **Matching market.**  For every slippage, every rounding of the fill ratio and every run of
calls on a new exchange, every fill up to any point was made during a valid quote of its order's
instrument at the price of that quote exactly when no valid quote finds a waiting order of another
instrument that it executes. -/
theorem fills_in_market_iff (slippageTicks : ℚ) (scaled : ℤ → ℚ) (calls : List SimCall) :
    (∀ part, part <+: calls → (run step (init slippageTicks scaled) part).AllInMarket) ↔
      Admissible step SameMarket (init slippageTicks scaled) calls := by
  apply Transition.forall_prefix_iff_of_step (P := fun s => s.Linked ∧ s.AllInMarket)
  · exact fun s hs => hs.2
  · rintro s c hsame ⟨hlinked, hall⟩
    exact ⟨hlinked.step c, (allInMarket_step_iff hlinked hall c).mpr hsame⟩
  · rintro s c hother ⟨hlinked, hall⟩
    exact fun hstep => hother ((allInMarket_step_iff hlinked hall c).mp hstep)
  · exact ⟨linked_init .., by simp [AllInMarket, init]⟩

/-- A market order for instrument 2 is executed by a quote of instrument 1. -/
theorem fills_in_market_other_instrument :
    ¬∀ (slippageTicks : ℚ) (scaled : ℤ → ℚ) (calls : List SimCall),
      (run step (init slippageTicks scaled) calls).AllInMarket := by
  intro hclaim
  obtain ⟨req, horder, -, -, hinstrument, -⟩ := hclaim 0 (fun q => q)
    [.sendNewOrder { instrumentId := 2, type := .market, qty := 5 },
      .processBbo { instrumentId := 1, bidPx := 99, askPx := 100 }] _ List.mem_cons_self
  cases horder
  exact absurd hinstrument (by decide)

end SimSession

end QuantTrade
