import QuantTrade.Common.Types

/-!
# The circuit breaker

`CircuitBreaker` of `src/risk/circuit_breaker.cpp`, one call at a time.  Orders are allowed while
it is closed; a profit and loss at or below the threshold opens it, a recovery makes it half open,
and a reset closes it again.
-/

namespace QuantTrade

/-- The breaker: its state, the accumulated profit and loss, and the two thresholds. -/
structure CircuitBreaker where
  state : CBState
  dailyPnl : ℤ
  openThreshold : ℤ
  halfOpenThreshold : ℤ
  deriving DecidableEq, Repr

namespace CircuitBreaker

/-- A new breaker is closed. -/
def init (openThreshold : ℤ) : CircuitBreaker where
  state := .closed
  dailyPnl := 0
  openThreshold := openThreshold
  halfOpenThreshold := openThreshold.tdiv 2

/-- `allow_order`. -/
def allowOrder (cb : CircuitBreaker) : Bool :=
  cb.state == .closed

/-- `update_pnl`: add up, then open a closed breaker or half open an open one. -/
def updatePnl (cb : CircuitBreaker) (delta : ℤ) : CircuitBreaker :=
  let newPnl := cb.dailyPnl + delta
  let state :=
    if newPnl ≤ cb.openThreshold then
      if cb.state = .closed then .open else cb.state
    else if newPnl > cb.halfOpenThreshold then
      if cb.state = .open then .halfOpen else cb.state
    else cb.state
  { cb with dailyPnl := newPnl, state := state }

/-- `reset`. -/
def reset (cb : CircuitBreaker) : CircuitBreaker :=
  { cb with dailyPnl := 0, state := .closed }

@[simp] lemma allowOrder_init (openThreshold : ℤ) : (init openThreshold).allowOrder = true := rfl

end CircuitBreaker

end QuantTrade
