import QuantTrade.Risk.Gate
import QuantTrade.Risk.LimitOverflow

/-!
# The pre-trade check in 64-bit arithmetic

The breaker, the rate limiter and the position limits count in `int64_t`.  Here their functions are
those of the machine, every sum and product reduced to 64 bits.  As long as no call of a run forms a
number outside of the range (`NoOverflow`), the run is the one over the integers (`after64_eq`), and
then what passes is decided by the history (`check_iff_history`).
-/

namespace QuantTrade

open RateLimiter (int64)
open PreTradeRisk (Call)

/-! ## The components -/

/-- `CircuitBreaker::update_pnl` in `int64_t`. -/
def CircuitBreaker.updatePnl64 (cb : CircuitBreaker) (delta : ℤ) : CircuitBreaker :=
  let newPnl := int64 (cb.dailyPnl + delta)
  let state :=
    if newPnl ≤ cb.openThreshold then
      if cb.state = .closed then .open else cb.state
    else if newPnl > cb.halfOpenThreshold then
      if cb.state = .open then .halfOpen else cb.state
    else cb.state
  { cb with dailyPnl := newPnl, state := state }

lemma CircuitBreaker.updatePnl64_eq {cb : CircuitBreaker} {delta : ℤ}
    (h : InInt64 (cb.dailyPnl + delta)) : cb.updatePnl64 delta = cb.updatePnl delta := by
  rw [updatePnl64, updatePnl, h.int64_eq]

namespace RateLimiter

/-- The constructor in `int64_t`. -/
def init64 (ratePerSec burst nowNs : ℤ) : RateLimiter where
  tokens := int64 (burst * 1000)
  lastRefillNs := nowNs
  burstScaled := int64 (burst * 1000)
  rateNsScaled := int64 (ratePerSec * 1000)

lemma init64_eq {rate burst : ℤ} (nowNs : ℤ) (hrate : InInt64 (rate * 1000))
    (hburst : InInt64 (burst * 1000)) :
    init64 rate burst nowNs = init rate burst nowNs := by
  rw [init64, init, hrate.int64_eq, hburst.int64_eq]

end RateLimiter

namespace PositionLimits

/-- `on_cancel` in `int64_t`. -/
def onCancel64 (pl : PositionLimits) (id : ℕ) (side : Side) (qty : ℤ) : PositionLimits :=
  if id ≥ maxInstruments then pl
  else
    let delta := int64 (-side.signed qty)
    { pl with slots := Function.update pl.slots id (int64 (pl.slots id + delta)) }

/-- The numbers that `on_cancel` forms for an instrument there is are in the range. -/
def CancelsInRange (pl : PositionLimits) (id : ℕ) (side : Side) (qty : ℤ) : Prop :=
  id < maxInstruments → InInt64 (-side.signed qty) ∧ InInt64 (pl.slots id - side.signed qty)

instance (pl : PositionLimits) (id : ℕ) (side : Side) (qty : ℤ) :
    Decidable (pl.CancelsInRange id side qty) :=
  inferInstanceAs (Decidable (_ → _ ∧ _))

lemma onCancel64_of_inRange {pl : PositionLimits} {id : ℕ} {side : Side} {qty : ℤ}
    (h : pl.CancelsInRange id side qty) :
    pl.onCancel64 id side qty = pl.onCancel id side qty := by
  unfold onCancel64 onCancel
  by_cases hid : id ≥ maxInstruments
  · rw [if_pos hid, if_pos hid]
  · obtain ⟨hdelta, hslot⟩ := h (not_le.mp hid)
    rw [sub_eq_add_neg] at hslot
    dsimp only
    rw [if_neg hid, if_neg hid, hdelta.int64_eq, hslot.int64_eq, sub_eq_add_neg]

end PositionLimits

/-! ## The check -/

namespace PreTradeRisk

/-- `check` in `int64_t`. -/
def check64 (risk : PreTradeRisk) (nowNs : ℤ) (req : OrderRequest) : PreTradeRisk × Bool :=
  if !risk.circuitBreaker.allowOrder then (risk, false)
  else
    match risk.rateLimiter.tryAcquire64 nowNs 1 with
    | (rateLimiter, false) => ({ risk with rateLimiter }, false)
    | (rateLimiter, true) =>
      match risk.positionLimits.checkAndReserve64 req.instrumentId req.side req.qty req.price with
      | (positionLimits, ok) => ({ risk with rateLimiter, positionLimits }, ok)

/-- The components after a call. -/
def perform64 (risk : PreTradeRisk) : Call → PreTradeRisk
  | .check nowNs req => (risk.check64 nowNs req).1
  | .updatePnl delta => { risk with circuitBreaker := risk.circuitBreaker.updatePnl64 delta }
  | .reset => { risk with circuitBreaker := risk.circuitBreaker.reset }
  | .onFill id side fillQty =>
    { risk with positionLimits := risk.positionLimits.onFill id side fillQty }
  | .onCancel id side qty =>
    { risk with positionLimits := risk.positionLimits.onCancel64 id side qty }

/-- The request that passes in a call. -/
def passes64 (risk : PreTradeRisk) : Call → List OrderRequest
  | .check nowNs req => if (risk.check64 nowNs req).2 then [req] else []
  | _ => []

/-- No number that the call forms is outside of the range; a check comes to the bucket only while
the breaker is closed, and to the limits only with a token. -/
def NoOverflow (risk : PreTradeRisk) : Call → Prop
  | .check nowNs req =>
    risk.circuitBreaker.allowOrder = true →
      risk.rateLimiter.NoOverflow nowNs ∧
        (risk.rateLimiter.HasToken nowNs →
          risk.positionLimits.ReservesInRange req.instrumentId req.side req.qty req.price)
  | .updatePnl delta => InInt64 (risk.circuitBreaker.dailyPnl + delta)
  | .onCancel id side qty => risk.positionLimits.CancelsInRange id side qty
  | .reset | .onFill _ _ _ => True

instance (risk : PreTradeRisk) : DecidablePred risk.NoOverflow
  | .check _ _ => inferInstanceAs (Decidable (_ → _ ∧ (_ → _)))
  | .updatePnl _ => inferInstanceAs (Decidable (InInt64 _))
  | .onCancel _ _ _ => inferInstanceAs (Decidable (PositionLimits.CancelsInRange ..))
  | .reset => inferInstanceAs (Decidable True)
  | .onFill _ _ _ => inferInstanceAs (Decidable True)

variable {risk : PreTradeRisk} {rate burst : ℤ}

/-- Without an overflow a check is the one over the integers. -/
lemma check64_eq {nowNs : ℤ} {req : OrderRequest} (h : risk.NoOverflow (.check nowNs req))
    (hsane : RateLimiter.Sane rate burst risk.rateLimiter) (hburst : InInt64 (burst * 1000)) :
    risk.check64 nowNs req = risk.check nowNs req := by
  unfold check64 check
  cases hopen : risk.circuitBreaker.allowOrder with
  | false => rfl
  | true =>
    obtain ⟨hbucket, hlimits⟩ := h hopen
    rw [RateLimiter.tryAcquire64_of_noOverflow hbucket hsane hburst]
    by_cases htoken : risk.rateLimiter.HasToken nowNs
    · rw [RateLimiter.tryAcquire_of_hasToken htoken,
        PositionLimits.checkAndReserve64_of_inRange (hlimits htoken)]
    · rw [RateLimiter.tryAcquire_of_not_hasToken htoken]

/-- Without an overflow every call is the one over the integers. -/
lemma perform64_eq {c : Call} (h : risk.NoOverflow c)
    (hsane : RateLimiter.Sane rate burst risk.rateLimiter) (hburst : InInt64 (burst * 1000)) :
    risk.perform64 c = risk.perform c ∧ risk.passes64 c = risk.passes c := by
  cases c with
  | check nowNs req => exact ⟨by rw [perform64, check64_eq h hsane hburst, perform],
      by rw [passes64, check64_eq h hsane hburst, passes]⟩
  | updatePnl delta => exact ⟨by rw [perform64, CircuitBreaker.updatePnl64_eq h, perform], rfl⟩
  | onCancel id side qty =>
    exact ⟨by rw [perform64, PositionLimits.onCancel64_of_inRange h, perform], rfl⟩
  | _ => exact ⟨rfl, rfl⟩

end PreTradeRisk

/-! ## Every run -/

namespace Gate

/-- New components, as the main program builds them. -/
def init64 (openThreshold maxNetQty maxNotional ratePerSec burst nowNs : ℤ) : Gate where
  risk :=
    { circuitBreaker := .init openThreshold
      rateLimiter := .init64 ratePerSec burst nowNs
      positionLimits := .init maxNetQty maxNotional }
  deltas := []
  passed := []
  returned := []

/-- A call, with what happens in it. -/
def step64 (g : Gate) (c : Call) : Gate where
  risk := g.risk.perform64 c
  deltas := note g.deltas c
  passed := g.passed ++ g.risk.passes64 c
  returned := g.returned ++ returns c

/-- The components after the calls. -/
def after64 (openThreshold maxNetQty maxNotional ratePerSec burst startNs : ℤ)
    (calls : List Call) : Gate :=
  Transition.run step64 (init64 openThreshold maxNetQty maxNotional ratePerSec burst startNs) calls

/-- The constructor and the calls of a run stay within the range of `int64_t`. -/
structure NoOverflow (openThreshold maxNetQty maxNotional ratePerSec burst startNs : ℤ)
    (calls : List Call) : Prop where
  rateScaled : InInt64 (ratePerSec * 1000)
  burstScaled : InInt64 (burst * 1000)
  calls : Transition.Admissible step64 (fun g c => g.risk.NoOverflow c)
    (init64 openThreshold maxNetQty maxNotional ratePerSec burst startNs) calls

variable {openThreshold maxNetQty maxNotional ratePerSec burst startNs : ℤ}

/-- Without an overflow a run is the one over the integers. -/
lemma run_step64_eq (hrate : 0 ≤ ratePerSec) (hburst : InInt64 (burst * 1000)) {g : Gate}
    (hinv : Inv openThreshold maxNetQty maxNotional ratePerSec burst g) {calls : List Call}
    (h : Transition.Admissible step64 (fun g c => g.risk.NoOverflow c) g calls) :
    Transition.run step64 g calls = Transition.run step g calls := by
  induction calls generalizing g with
  | nil => rfl
  | cons c calls ih =>
    obtain ⟨hc, hrest⟩ := h
    have hstep : g.step64 c = g.step c := by
      obtain ⟨hperform, hpasses⟩ := PreTradeRisk.perform64_eq hc hinv.bucket hburst
      rw [step64, Gate.step, hperform, hpasses]
    rw [hstep] at hrest
    rw [Transition.run_cons, Transition.run_cons, hstep]
    exact ih (hinv.step hrate c) hrest

lemma after64_eq (hrate : 0 ≤ ratePerSec) (hburst : 0 ≤ burst) {calls : List Call}
    (h : NoOverflow openThreshold maxNetQty maxNotional ratePerSec burst startNs calls) :
    after64 openThreshold maxNetQty maxNotional ratePerSec burst startNs calls =
      after openThreshold maxNetQty maxNotional ratePerSec burst startNs calls := by
  have hinit : init64 openThreshold maxNetQty maxNotional ratePerSec burst startNs =
      init openThreshold maxNetQty maxNotional ratePerSec burst startNs := by
    rw [init64, init, RateLimiter.init64_eq _ h.rateScaled h.burstScaled]
  have hcalls := h.calls
  rw [hinit] at hcalls
  rw [after64, after, hinit]
  exact run_step64_eq hrate h.burstScaled (inv_init hburst startNs) hcalls

/-- Without an overflow, a check after some calls is the one over the integers. -/
lemma check64_after64_eq (hrate : 0 ≤ ratePerSec) (hburst : 0 ≤ burst) {calls : List Call}
    {nowNs : ℤ} {req : OrderRequest}
    (h : NoOverflow openThreshold maxNetQty maxNotional ratePerSec burst startNs
      (calls ++ [.check nowNs req])) :
    let g := after openThreshold maxNetQty maxNotional ratePerSec burst startNs calls
    after64 openThreshold maxNetQty maxNotional ratePerSec burst startNs calls = g ∧
      g.risk.check64 nowNs req = g.risk.check nowNs req := by
  intro g
  have hbefore : NoOverflow openThreshold maxNetQty maxNotional ratePerSec burst startNs calls :=
    ⟨h.rateScaled, h.burstScaled, h.calls.of_append⟩
  have hrun : after64 openThreshold maxNetQty maxNotional ratePerSec burst startNs calls = g :=
    after64_eq hrate hburst hbefore
  refine ⟨hrun, PreTradeRisk.check64_eq ?_
    (inv_after openThreshold maxNetQty maxNotional hrate hburst startNs calls).bucket h.burstScaled⟩
  rw [← hrun]
  exact Transition.admissible_iff_forall_run.mp h.calls calls _ List.prefix_rfl

/-- **What passes is decided by the history.**  After any calls, as long as nothing overflows, a
request passes exactly when the accumulated profit and loss was never at or below the threshold
since the last reset, a token is there, the instrument exists, the notional is within its limit, and
what passed so far less what was given back, together with the request, is within the limit of the
net quantity.  A request that does not pass reserves nothing. -/
theorem check_iff_history (hrate : 0 ≤ ratePerSec) (hburst : 0 ≤ burst) (calls : List Call)
    (nowNs : ℤ) (req : OrderRequest)
    (hrange : NoOverflow openThreshold maxNetQty maxNotional ratePerSec burst startNs
      (calls ++ [.check nowNs req])) :
    let g := after64 openThreshold maxNetQty maxNotional ratePerSec burst startNs calls
    ((g.risk.check64 nowNs req).2 = true ↔
        ¬CircuitBreaker.Tripped openThreshold g.deltas ∧ g.risk.rateLimiter.HasToken nowNs ∧
          req.instrumentId < maxInstruments ∧
          ¬(0 < req.price ∧ 0 < req.qty ∧ maxNotional < req.price * req.qty) ∧
          |g.net req.instrumentId + req.side.signed req.qty| ≤ maxNetQty) ∧
      ((g.risk.check64 nowNs req).2 = false →
        ∀ i, (g.risk.check64 nowNs req).1.positionLimits.getNetQty i =
          g.risk.positionLimits.getNetQty i) := by
  intro g
  obtain ⟨hrun, hcheck⟩ := check64_after64_eq hrate hburst hrange
  have hinv := inv_after openThreshold maxNetQty maxNotional hrate hburst startNs calls
  have hg : g = after openThreshold maxNetQty maxNotional ratePerSec burst startNs calls := hrun
  rw [hg, hcheck]
  refine ⟨hinv.check_iff nowNs req, fun hrefused i => ?_⟩
  rw [PreTradeRisk.getNetQty_check, if_neg (by simp [hrefused]), add_zero]

/-- A request passes, a loss trips the breaker, and the next request is refused and reserves
nothing. -/
theorem check_iff_history_example :
    let g := after64 (-50) 5 100 10 20 0 [.check 1 unitRequest, .updatePnl (-60)]
    (g.risk.check64 2 unitRequest).2 = false ∧
      (g.risk.check64 2 unitRequest).1.positionLimits.getNetQty 1 =
        g.risk.positionLimits.getNetQty 1 :=
  have hrange : NoOverflow (-50) 5 100 10 20 0
      ([.check 1 unitRequest, .updatePnl (-60)] ++ [.check 2 unitRequest]) :=
    ⟨by decide, by decide, by decide⟩
  ⟨by decide, (check_iff_history (by decide) (by decide) _ 2 unitRequest hrange).2 (by decide) 1⟩

end Gate

end QuantTrade
