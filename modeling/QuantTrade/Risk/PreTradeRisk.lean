import QuantTrade.Oms.Order
import QuantTrade.Risk.CircuitBreaker
import QuantTrade.Risk.PositionLimits
import QuantTrade.Risk.RateLimiter

/-!
# The pre-trade check

`PreTradeRisk` of `src/risk/pre_trade_risk.cpp`: breaker, rate limiter and position limits in this
order, and the first that refuses ends the check.
-/

namespace QuantTrade

/-- The three components of the check. -/
structure PreTradeRisk where
  circuitBreaker : CircuitBreaker
  rateLimiter : RateLimiter
  positionLimits : PositionLimits

namespace PreTradeRisk

/-- `check`. -/
def check (risk : PreTradeRisk) (nowNs : ℤ) (req : OrderRequest) : PreTradeRisk × Bool :=
  if !risk.circuitBreaker.allowOrder then (risk, false)
  else
    match risk.rateLimiter.tryAcquire nowNs with
    | (rateLimiter, false) => ({ risk with rateLimiter }, false)
    | (rateLimiter, true) =>
      match risk.positionLimits.checkAndReserve req.instrumentId req.side req.qty req.price with
      | (positionLimits, ok) => ({ risk with rateLimiter, positionLimits }, ok)

/-- The rate limiter or the position limits refuse the request. -/
def Refuses (risk : PreTradeRisk) (nowNs : ℤ) (req : OrderRequest) : Prop :=
  ¬risk.rateLimiter.HasToken nowNs ∨
    ¬risk.positionLimits.Admits req.instrumentId req.side req.qty req.price

instance (risk : PreTradeRisk) (nowNs : ℤ) (req : OrderRequest) :
    Decidable (risk.Refuses nowNs req) :=
  inferInstanceAs (Decidable (_ ∨ _))

/-- A request passes when the breaker is closed and none of the others refuses. -/
lemma check_snd (risk : PreTradeRisk) (nowNs : ℤ) (req : OrderRequest) :
    (risk.check nowNs req).2 = true ↔
      risk.circuitBreaker.allowOrder = true ∧ ¬risk.Refuses nowNs req := by
  have htoken := risk.rateLimiter.tryAcquire_snd nowNs
  have hadmits :=
    risk.positionLimits.checkAndReserve_snd req.instrumentId req.side req.qty req.price
  unfold check Refuses
  cases hopen : risk.circuitBreaker.allowOrder with
  | false => simp
  | true =>
    rcases hacq : risk.rateLimiter.tryAcquire nowNs with ⟨rl, _ | _⟩
    · rw [hacq] at htoken
      simp_all
    · rw [hacq] at htoken
      simp_all

/-- What a request that passes leaves: a token less, and its quantity reserved. -/
lemma check_of_pass {risk : PreTradeRisk} {nowNs : ℤ} {req : OrderRequest}
    (hclosed : risk.circuitBreaker.allowOrder = true) (htoken : risk.rateLimiter.HasToken nowNs)
    (hadmits : risk.positionLimits.Admits req.instrumentId req.side req.qty req.price) :
    risk.check nowNs req =
      ({ risk with
        rateLimiter :=
          { risk.rateLimiter.refill nowNs with
            tokens := (risk.rateLimiter.refill nowNs).tokens - 1000 }
        positionLimits :=
          { risk.positionLimits with
            slots :=
              Function.update risk.positionLimits.slots req.instrumentId
                (risk.positionLimits.slots req.instrumentId + req.side.signed req.qty) } },
        true) := by
  simp [check, hclosed, RateLimiter.tryAcquire_of_hasToken htoken,
    PositionLimits.checkAndReserve_of_admits hadmits]

/-- The check never touches the breaker. -/
@[simp] lemma circuitBreaker_check (risk : PreTradeRisk) (nowNs : ℤ) (req : OrderRequest) :
    (risk.check nowNs req).1.circuitBreaker = risk.circuitBreaker := by
  unfold check
  split
  · rfl
  · split <;> rfl

/-- A request that passes is reserved, one that does not leaves the limits alone. -/
lemma getNetQty_check (risk : PreTradeRisk) (nowNs : ℤ) (req : OrderRequest) (i : ℕ) :
    (risk.check nowNs req).1.positionLimits.getNetQty i =
      risk.positionLimits.getNetQty i +
        if (risk.check nowNs req).2 = true ∧ req.instrumentId = i then req.side.signed req.qty
        else 0 := by
  have hget := risk.positionLimits.getNetQty_checkAndReserve req.instrumentId req.side req.qty
    req.price i
  have hadmits :=
    risk.positionLimits.checkAndReserve_snd req.instrumentId req.side req.qty req.price
  unfold check
  cases risk.circuitBreaker.allowOrder with
  | false => simp
  | true =>
    rcases risk.rateLimiter.tryAcquire nowNs with ⟨rl, _ | _⟩
    · simp
    · simp [hget, hadmits]

end PreTradeRisk

end QuantTrade
