import QuantTrade.Backtest.SimExchange
import QuantTrade.Position.PositionManager

/-!
# The backtester

`Backtester` of `src/backtest/backtester.{hpp,cpp}`: a quote drives the exchange, then all acks and
after them all fills go to their handlers, and the fills to the positions as well.
-/

namespace QuantTrade

/-- The loop `while (pop(x)) ...`, at most `n` rounds of it. -/
def popAll {σ α : Type} (pop : σ → Option α × σ) : ℕ → σ → List α × σ
  | 0, s => ([], s)
  | n + 1, s =>
    match pop s with
    | (none, s) => ([], s)
    | (some a, s) =>
      let (popped, s) := popAll pop n s
      (a :: popped, s)

/-- The loop empties a queue, of which `put` says what the state is with it. -/
lemma popAll_put {σ α : Type} {pop : σ → Option α × σ} {put : List α → σ}
    (hnil : pop (put []) = (none, put []))
    (hcons : ∀ a queue, pop (put (a :: queue)) = (some a, put queue)) {queue : List α} {n : ℕ}
    (hn : queue.length < n) : popAll pop n (put queue) = (queue, put []) := by
  induction queue generalizing n with
  | nil =>
    obtain ⟨n, rfl⟩ := Nat.exists_eq_succ_of_ne_zero hn.ne'
    simp only [popAll, hnil]
  | cons a queue ih =>
    obtain ⟨n, rfl⟩ := Nat.exists_eq_succ_of_ne_zero (Nat.ne_zero_of_lt hn)
    simp only [popAll, hcons, ih (Nat.lt_of_succ_lt_succ hn)]

/-- What the two handlers are called with. -/
structure BacktestReports where
  acks : List OrderAck
  fills : List FillEvent
  deriving DecidableEq, Repr

/-- The backtester with its exchange and its positions. -/
structure Backtester where
  exchange : SimExchange
  pm : PositionManager
  bboCount : ℕ
  fillCount : ℕ

namespace Backtester

/-- A new backtester. -/
def init (exchange : SimExchange) : Backtester where
  exchange := exchange
  pm := .init
  bboCount := 0
  fillCount := 0

/-- `feed_bbo`: the backtester after the quote, and the calls of the handlers.  One more round than
there are reports ends a loop. -/
def feedBbo (b : Backtester) (bbo : BBOEvent) : Backtester × BacktestReports :=
  let exchange := b.exchange.processBbo bbo
  let (acks, exchange) := popAll SimExchange.popAck (exchange.ackQueue.length + 1) exchange
  let (fills, exchange) := popAll SimExchange.popFill (exchange.fillQueue.length + 1) exchange
  ({ exchange := exchange
     pm := fills.foldl PositionManager.onFill b.pm
     bboCount := b.bboCount + 1
     fillCount := b.fillCount + fills.length },
    { acks := acks, fills := fills })

/-- The loop over the acks empties their queue. -/
lemma popAll_popAck (s : SimExchange) :
    popAll SimExchange.popAck (s.ackQueue.length + 1) s =
      (s.ackQueue, { s with ackQueue := [] }) :=
  @popAll_put _ _ SimExchange.popAck (fun acks => { s with ackQueue := acks }) rfl
    (fun _ _ => rfl) s.ackQueue _ (Nat.lt_succ_self _)

/-- The loop over the fills empties their queue. -/
lemma popAll_popFill (s : SimExchange) :
    popAll SimExchange.popFill (s.fillQueue.length + 1) s =
      (s.fillQueue, { s with fillQueue := [] }) :=
  @popAll_put _ _ SimExchange.popFill (fun fills => { s with fillQueue := fills }) rfl
    (fun _ _ => rfl) s.fillQueue _ (Nat.lt_succ_self _)

/-- When no reports were left over, the handlers get the executions of the quote, all acks before
all fills. -/
theorem feedBbo_eq {b : Backtester} (hacks : b.exchange.ackQueue = [])
    (hfills : b.exchange.fillQueue = []) (bbo : BBOEvent) :
    b.feedBbo bbo =
      ({ exchange := { b.exchange with
          pendingOrders :=
            if bbo.isValidBbo then b.exchange.pendingOrders.filterMap (b.exchange.leftover bbo)
            else b.exchange.pendingOrders }
         pm :=
           ((b.exchange.matched bbo).map (b.exchange.fillOf bbo)).foldl PositionManager.onFill b.pm
         bboCount := b.bboCount + 1
         fillCount := b.fillCount + (b.exchange.matched bbo).length },
        { acks := (b.exchange.matched bbo).map (SimExchange.ackOf bbo)
          fills := (b.exchange.matched bbo).map (b.exchange.fillOf bbo) }) := by
  unfold feedBbo
  dsimp only
  rw [popAll_popAck]
  dsimp only
  have hpop := popAll_popFill { b.exchange.processBbo bbo with ackQueue := [] }
  dsimp only at hpop
  rw [hpop, SimExchange.processBbo_eq]
  dsimp only
  rw [hacks, hfills, List.nil_append, List.nil_append, List.length_map]

end Backtester

end QuantTrade
