import QuantTrade.Backtest.MatchingMarket

/-!
# Immediate orders

The loop of `process_bbo` knows limit orders and market orders.  An order of a type that is executed
at once or cancelled (`IOC`, `FOK`, `FAK`) satisfies no quote, so it goes back to the queue, at
every quote (`mem_pendingOrders_run`).  The rule of these types holds exactly in the runs in which
no valid quote comes after such an order (`neverRest_iff`).
-/

namespace QuantTrade

open Transition (run)

/-- The types of orders that are executed at once or cancelled. -/
def OrderType.isImmediate : OrderType → Bool
  | .ioc => true
  | .fok => true
  | .fak => true
  | _ => false

namespace SimExchange

/-- The condition under which the quote executes a limit order with this price and this quantity. -/
def LimitAllows (s : SimExchange) (bbo : BBOEvent) (req : OrderRequest) : Prop :=
  s.canFill bbo { req with type := .limit } = true ∧ 0 < s.fillQty req

/-- No quote satisfies an immediate order. -/
lemma canFill_of_isImmediate {req : OrderRequest} (h : req.type.isImmediate = true)
    (s : SimExchange) (bbo : BBOEvent) : s.canFill bbo req = false := by
  unfold canFill
  cases htype : req.type with
  | market => simp [htype, OrderType.isImmediate] at h
  | limit => simp [htype, OrderType.isImmediate] at h
  | ioc => rfl
  | fok => rfl
  | fak => rfl

end SimExchange

namespace SimSession

/-- An immediate order is sent. -/
def SendsImmediate : SimCall → Prop
  | .sendNewOrder req => req.type.isImmediate = true
  | _ => False

/-- A valid quote is processed. -/
def IsValidQuote : SimCall → Bool
  | .processBbo bbo => bbo.isValidBbo
  | _ => false

/-- No order with this id waits. -/
def Gone (s : SimSession) (clientOrderId : ℕ) : Prop :=
  ∀ entry ∈ s.exchange.pendingOrders, entry.clientOrderId ≠ clientOrderId

/-- What is expected of an immediate order in a run of calls: after the first valid quote behind it
the order does not wait any more, the quote has executed it if its limit allows, and no fill of a
later quote is one of it. -/
structure NeverRests (s : SimSession) (req : OrderRequest) (quiet : List SimCall) (bbo : BBOEvent)
    (later : List SimCall) : Prop where
  gone : (run step s (.sendNewOrder req :: quiet ++ [.processBbo bbo])).Gone
    s.exchange.nextClientOrderId
  executed : (run step s (.sendNewOrder req :: quiet)).exchange.LimitAllows bbo req →
    ∃ fill, (bbo, fill) ∈ (run step s (.sendNewOrder req :: quiet ++ [.processBbo bbo])).emitted ∧
      fill.clientOrderId = s.exchange.nextClientOrderId
  final : ∀ p ∈ (run step s (.sendNewOrder req :: quiet ++ .processBbo bbo :: later)).emitted.drop
    (run step s (.sendNewOrder req :: quiet ++ [.processBbo bbo])).emitted.length,
    p.2.clientOrderId ≠ s.exchange.nextClientOrderId

/-- Immediate orders never rest in a run of calls, and when there are no others the queue is empty
after every valid quote. -/
structure ImmediateNeverRest (s : SimSession) (calls : List SimCall) : Prop where
  neverRests : ∀ front req quiet bbo later,
    calls = front ++ (.sendNewOrder req :: quiet ++ .processBbo bbo :: later) →
      req.type.isImmediate = true → (∀ c ∈ quiet, IsValidQuote c = false) →
        bbo.isValidBbo = true → NeverRests (run step s front) req quiet bbo later
  bounded : (∀ req, .sendNewOrder req ∈ calls → req.type.isImmediate = true) →
    ∀ front bbo later, calls = front ++ .processBbo bbo :: later → bbo.isValidBbo = true →
      (run step s (front ++ [.processBbo bbo])).exchange.pendingOrders.length = 0

/-! ## An immediate order stays -/

/-- An immediate order that waits does so after every call. -/
lemma mem_pendingOrders_step {s : SimSession} {entry : PendingEntry}
    (himmediate : entry.req.type.isImmediate = true) (h : entry ∈ s.exchange.pendingOrders)
    (c : SimCall) : entry ∈ (s.step c).exchange.pendingOrders := by
  cases c with
  | sendNewOrder req => exact List.mem_append_left _ h
  | processBbo bbo =>
    simp only [step, SimExchange.processBbo_eq]
    split_ifs
    · have hcan := SimExchange.canFill_of_isImmediate himmediate s.exchange bbo
      have hleft : s.exchange.leftover bbo entry = some entry :=
        if_pos (by simp [hcan])
      exact List.mem_filterMap.mpr ⟨entry, h, hleft⟩
    · exact h
  | popAck =>
    simp only [step, SimExchange.pendingOrders_popAck]
    exact h
  | popFill =>
    simp only [step, SimExchange.pendingOrders_popFill]
    exact h

/-- **Immediate orders rest.**  An immediate order waits from when it is sent, at every point of
every run. -/
theorem mem_pendingOrders_run (s : SimSession) {req : OrderRequest}
    (himmediate : req.type.isImmediate = true) (calls : List SimCall) :
    s.exchange.newEntry req ∈
      (run step s (.sendNewOrder req :: calls)).exchange.pendingOrders := by
  have hsent : s.exchange.newEntry req ∈
      (s.step (.sendNewOrder req)).exchange.pendingOrders :=
    List.mem_append_right _ (List.mem_singleton_self _)
  rw [Transition.run_cons]
  exact Transition.invariant_run_of_step
    (P := fun t : SimSession => s.exchange.newEntry req ∈ t.exchange.pendingOrders)
    (fun t c ht => mem_pendingOrders_step himmediate ht c) hsent calls

/-- Nothing waits as long as nothing is sent. -/
lemma pendingOrders_run_of_not_sent {s : SimSession} (h : s.exchange.pendingOrders = [])
    {calls : List SimCall} (hcalls : ∀ req, .sendNewOrder req ∉ calls) :
    (run step s calls).exchange.pendingOrders = [] := by
  induction calls generalizing s with
  | nil => exact h
  | cons c calls ih =>
    have hrest : ∀ req, .sendNewOrder req ∉ calls :=
      fun req hmem => hcalls req (List.mem_cons_of_mem c hmem)
    apply ih _ hrest
    cases c with
    | sendNewOrder req => exact absurd List.mem_cons_self (hcalls req)
    | processBbo bbo =>
      simp only [step, SimExchange.processBbo_eq, h]
      exact ite_self []
    | popAck => rw [step, SimExchange.pendingOrders_popAck, h]
    | popFill => rw [step, SimExchange.pendingOrders_popFill, h]

/-! ## Quotes behind immediate orders -/

/-- No valid quote is processed after an immediate order was sent. -/
def NoQuoteAfterImmediate (calls : List SimCall) : Prop :=
  calls.Pairwise fun c d => SendsImmediate c → IsValidQuote d = false

/-- When a valid quote comes after an immediate order, there is a first one that does. -/
lemma exists_first_quote {calls : List SimCall} (h : ¬NoQuoteAfterImmediate calls) :
    ∃ front req quiet bbo later,
      calls = front ++ (.sendNewOrder req :: quiet ++ .processBbo bbo :: later) ∧
        req.type.isImmediate = true ∧ (∀ c ∈ quiet, IsValidQuote c = false) ∧
        bbo.isValidBbo = true := by
  induction calls with
  | nil => exact absurd List.Pairwise.nil h
  | cons c calls ih =>
    by_cases hrest : NoQuoteAfterImmediate calls
    · -- the order is the first call, and the quote the first valid one among the others
      have hfirst : ∃ d ∈ calls, SendsImmediate c ∧ IsValidQuote d = true := by
        by_contra hnone
        refine h (List.pairwise_cons.mpr ⟨fun d hd hsends => ?_, hrest⟩)
        by_contra hquote
        exact hnone ⟨d, hd, hsends, Bool.not_eq_false _ ▸ hquote⟩
      obtain ⟨d, hd, hsends, hquote⟩ := hfirst
      obtain ⟨first, hfind⟩ := Option.isSome_iff_exists.mp
        (List.find?_isSome.mpr ⟨d, hd, hquote⟩)
      obtain ⟨hvalid, quiet, later, rfl, hquiet⟩ := List.find?_eq_some_iff_append.mp hfind
      cases c with
      | sendNewOrder req =>
        cases first with
        | processBbo bbo =>
          refine ⟨[], req, quiet, bbo, later, rfl, hsends, ?_, hvalid⟩
          intro e he
          simpa using hquiet e he
        | sendNewOrder req' => exact absurd hvalid Bool.false_ne_true
        | popAck => exact absurd hvalid Bool.false_ne_true
        | popFill => exact absurd hvalid Bool.false_ne_true
      | processBbo bbo => exact hsends.elim
      | popAck => exact hsends.elim
      | popFill => exact hsends.elim
    · obtain ⟨front, req, quiet, bbo, later, rfl, hrest'⟩ := ih hrest
      exact ⟨c :: front, req, quiet, bbo, later, rfl, hrest'⟩

/-- **Immediate orders.**  For every slippage, every rounding of the fill ratio and every run of
calls on a new exchange, immediate orders never rest exactly when no valid quote is processed after
an immediate order was sent. -/
theorem neverRest_iff (slippageTicks : ℚ) (scaled : ℤ → ℚ) (calls : List SimCall) :
    ImmediateNeverRest (init slippageTicks scaled) calls ↔ NoQuoteAfterImmediate calls := by
  constructor
  · intro h
    by_contra hquote
    obtain ⟨front, req, quiet, bbo, later, hcalls, himmediate, hquiet, hvalid⟩ :=
      exists_first_quote hquote
    have hrests := h.neverRests front req quiet bbo later hcalls himmediate hquiet hvalid
    have hstays := mem_pendingOrders_run (run step (init slippageTicks scaled) front) himmediate
      (quiet ++ [.processBbo bbo])
    exact hrests.gone _ hstays rfl
  · intro h
    constructor
    · rintro front req quiet bbo later rfl himmediate - hvalid
      have hpair := (List.pairwise_append.mp h).2.1
      rw [List.cons_append, List.pairwise_cons] at hpair
      have hquote := hpair.1 (.processBbo bbo)
        (List.mem_append_right _ List.mem_cons_self) himmediate
      rw [IsValidQuote, hvalid] at hquote
      exact absurd hquote.symm Bool.false_ne_true
    · rintro hsent front bbo later rfl hvalid
      have hnone : ∀ req, .sendNewOrder req ∉ front ++ [.processBbo bbo] := by
        intro req hmem
        have hfront : .sendNewOrder req ∈ front := by simpa using hmem
        have himmediate := hsent req (List.mem_append_left _ hfront)
        have hquote := (List.pairwise_append.mp h).2.2 _ hfront (.processBbo bbo)
          List.mem_cons_self himmediate
        rw [IsValidQuote, hvalid] at hquote
        exact absurd hquote.symm Bool.false_ne_true
      rw [pendingOrders_run_of_not_sent rfl hnone, List.length_nil]

/-- A buy at 100 that is to be executed at once or cancelled still waits after a quote that asks
100. -/
theorem not_neverRest_ioc :
    ¬∀ (slippageTicks : ℚ) (scaled : ℤ → ℚ) (calls : List SimCall),
      ImmediateNeverRest (init slippageTicks scaled) calls := by
  intro hclaim
  let req : OrderRequest :=
    { instrumentId := 1, side := .buy, type := .ioc, price := 100, qty := 5 }
  let bbo : BBOEvent := { instrumentId := 1, bidPx := 99, askPx := 100 }
  have h := hclaim 0 (exactScale 1) [.sendNewOrder req, .processBbo bbo]
  have hrests := h.neverRests [] req [] bbo [] rfl rfl (by simp) rfl
  have himmediate : req.type.isImmediate = true := rfl
  have hstays := mem_pendingOrders_run (init 0 (exactScale 1)) himmediate [.processBbo bbo]
  exact hrests.gone _ hstays rfl

end SimSession

end QuantTrade
