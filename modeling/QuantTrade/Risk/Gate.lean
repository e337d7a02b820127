import QuantTrade.Risk.BreakerLatch
import QuantTrade.Risk.PreTradeRisk
import QuantTrade.Risk.TokenBucket

/-!
# The pre-trade check over a run

`PreTradeRisk` owns none of its components: between two checks the breaker is told profits and
losses and is reset, and the limits are told of fills and cancels.  A `Gate` keeps what happened:
the changes of the profit and loss since the last reset, the requests that passed and the quantities
that were given back.  Whether a request passes depends on this history and on the bucket
(`Inv.check_iff`), and how many pass is bounded by the bucket alone (`passed_window_le`), although
the breaker keeps requests away from it and the limits refuse requests that have paid a token.
-/

namespace QuantTrade

namespace PreTradeRisk

/-- The calls on the components of the check. -/
inductive Call where
  | check (nowNs : ℤ) (req : OrderRequest)
  | updatePnl (delta : ℤ)
  | reset
  | onFill (id : ℕ) (side : Side) (fillQty : ℤ)
  | onCancel (id : ℕ) (side : Side) (qty : ℤ)

/-- The components after a call. -/
def perform (risk : PreTradeRisk) : Call → PreTradeRisk
  | .check nowNs req => (risk.check nowNs req).1
  | .updatePnl delta => { risk with circuitBreaker := risk.circuitBreaker.updatePnl delta }
  | .reset => { risk with circuitBreaker := risk.circuitBreaker.reset }
  | .onFill id side fillQty =>
    { risk with positionLimits := risk.positionLimits.onFill id side fillQty }
  | .onCancel id side qty =>
    { risk with positionLimits := risk.positionLimits.onCancel id side qty }

/-- The request that passes in a call. -/
def passes (risk : PreTradeRisk) : Call → List OrderRequest
  | .check nowNs req => if (risk.check nowNs req).2 then [req] else []
  | _ => []

end PreTradeRisk

open PreTradeRisk (Call)

/-- The components, with what happened to them. -/
structure Gate where
  risk : PreTradeRisk
  deltas : List ℤ
  passed : List OrderRequest
  returned : List (ℕ × ℤ)

namespace Gate

/-- New components, as the main program builds them. -/
def init (openThreshold maxNetQty maxNotional ratePerSec burst nowNs : ℤ) : Gate where
  risk :=
    { circuitBreaker := .init openThreshold
      rateLimiter := .init ratePerSec burst nowNs
      positionLimits := .init maxNetQty maxNotional }
  deltas := []
  passed := []
  returned := []

/-- The changes of the profit and loss since the last reset, one call later. -/
def note (deltas : List ℤ) : Call → List ℤ
  | .updatePnl delta => CircuitBreaker.note deltas (.updatePnl delta)
  | .reset => CircuitBreaker.note deltas .reset
  | _ => deltas

/-- The quantity that a call gives back. -/
def returns : Call → List (ℕ × ℤ)
  | .onCancel id side qty => [(id, side.signed qty)]
  | _ => []

/-- A call, with what happens in it. -/
def step (g : Gate) (c : Call) : Gate where
  risk := g.risk.perform c
  deltas := note g.deltas c
  passed := g.passed ++ g.risk.passes c
  returned := g.returned ++ returns c

/-- What the requests that passed add up to on an instrument, less what was given back. -/
def net (g : Gate) (i : ℕ) : ℤ :=
  (g.passed.map fun req => if req.instrumentId = i then req.side.signed req.qty else 0).sum -
    (g.returned.map fun r => if r.1 = i then r.2 else 0).sum

/-- The components remember the history. -/
structure Inv (openThreshold maxNetQty maxNotional ratePerSec burst : ℤ) (g : Gate) : Prop where
  breaker : CircuitBreaker.Remembers openThreshold g.risk.circuitBreaker g.deltas
  bucket : RateLimiter.Sane ratePerSec burst g.risk.rateLimiter
  slots : ∀ i < maxInstruments, g.risk.positionLimits.getNetQty i = g.net i
  maxNetQty_eq : g.risk.positionLimits.maxNetQty = maxNetQty
  maxNotional_eq : g.risk.positionLimits.maxNotional = maxNotional

variable {openThreshold maxNetQty maxNotional ratePerSec burst : ℤ}

lemma inv_init (hburst : 0 ≤ burst) (nowNs : ℤ) :
    Inv openThreshold maxNetQty maxNotional ratePerSec burst
      (init openThreshold maxNetQty maxNotional ratePerSec burst nowNs) where
  breaker := CircuitBreaker.remembers_init openThreshold
  bucket := RateLimiter.sane_init hburst ratePerSec nowNs
  slots _ _ := PositionLimits.getNetQty_init ..
  maxNetQty_eq := rfl
  maxNotional_eq := rfl

/-! ## The calls -/

/-- A check takes a token or not; without the breaker it does not come to the bucket. -/
lemma rateLimiter_check (risk : PreTradeRisk) (nowNs : ℤ) (req : OrderRequest) :
    (risk.check nowNs req).1.rateLimiter =
      if risk.circuitBreaker.allowOrder then risk.rateLimiter.next nowNs
      else risk.rateLimiter := by
  unfold PreTradeRisk.check RateLimiter.next
  cases risk.circuitBreaker.allowOrder with
  | false => rfl
  | true =>
    rcases risk.rateLimiter.tryAcquire nowNs with ⟨rl, _ | _⟩
    · rfl
    · rfl

/-- The limits themselves never change. -/
lemma limits_check (risk : PreTradeRisk) (nowNs : ℤ) (req : OrderRequest) :
    (risk.check nowNs req).1.positionLimits.maxNetQty = risk.positionLimits.maxNetQty ∧
      (risk.check nowNs req).1.positionLimits.maxNotional = risk.positionLimits.maxNotional := by
  unfold PreTradeRisk.check
  cases risk.circuitBreaker.allowOrder with
  | false => exact ⟨rfl, rfl⟩
  | true =>
    rcases risk.rateLimiter.tryAcquire nowNs with ⟨rl, _ | _⟩
    · exact ⟨rfl, rfl⟩
    · refine ⟨PositionLimits.maxNetQty_checkAndReserve .., ?_⟩
      by_cases hadmits :
          risk.positionLimits.Admits req.instrumentId req.side req.qty req.price
      · exact congrArg (fun p => p.1.maxNotional)
          (PositionLimits.checkAndReserve_of_admits hadmits)
      · exact congrArg (fun p => p.1.maxNotional)
          (PositionLimits.checkAndReserve_of_not_admits hadmits)

/-- A cancel moves the slot of its instrument back and no other. -/
lemma getNetQty_onCancel (pl : PositionLimits) (id : ℕ) (side : Side) (qty : ℤ) {i : ℕ}
    (hi : i < maxInstruments) :
    (pl.onCancel id side qty).getNetQty i =
      pl.getNetQty i - if id = i then side.signed qty else 0 := by
  by_cases hid : id = i
  · subst hid
    rw [PositionLimits.getNetQty_onCancel pl hi, if_pos rfl]
  · rw [if_neg hid, sub_zero]
    unfold PositionLimits.onCancel
    split_ifs
    · rfl
    · simp [PositionLimits.getNetQty, Function.update_of_ne (Ne.symm hid)]

/-- **One call** keeps the components and the history in step. -/
lemma Inv.step (hrate : 0 ≤ ratePerSec) {g : Gate}
    (h : Inv openThreshold maxNetQty maxNotional ratePerSec burst g) (c : Call) :
    Inv openThreshold maxNetQty maxNotional ratePerSec burst (g.step c) := by
  cases c with
  | check nowNs req =>
    obtain ⟨hmaxNet, hmaxNotional⟩ := limits_check g.risk nowNs req
    refine ⟨?_, ?_, ?_, hmaxNet.trans h.maxNetQty_eq, hmaxNotional.trans h.maxNotional_eq⟩
    · have hbreaker := h.breaker
      simpa [Gate.step, PreTradeRisk.perform, note] using hbreaker
    · change RateLimiter.Sane ratePerSec burst (g.risk.check nowNs req).1.rateLimiter
      rw [rateLimiter_check]
      split_ifs
      · exact h.bucket.next hrate nowNs
      · exact h.bucket
    · intro i hi
      have hslot := h.slots i hi
      change (g.risk.check nowNs req).1.positionLimits.getNetQty i = _
      rw [PreTradeRisk.getNetQty_check, hslot, net, net]
      simp only [Gate.step, PreTradeRisk.passes, returns, List.append_nil]
      by_cases hok : (g.risk.check nowNs req).2 = true
      · by_cases hreq : req.instrumentId = i
        · simp [hok, hreq]
          omega
        · simp [hok, hreq]
      · simp [hok]
  | updatePnl delta =>
    exact ⟨h.breaker.perform (.updatePnl delta), h.bucket, by
      simpa [Gate.step, PreTradeRisk.perform, net, PreTradeRisk.passes, returns] using h.slots,
      h.maxNetQty_eq, h.maxNotional_eq⟩
  | reset =>
    exact ⟨h.breaker.perform .reset, h.bucket, by
      simpa [Gate.step, PreTradeRisk.perform, net, PreTradeRisk.passes, returns] using h.slots,
      h.maxNetQty_eq, h.maxNotional_eq⟩
  | onFill id side fillQty =>
    exact ⟨h.breaker, h.bucket, by
      simpa [Gate.step, PreTradeRisk.perform, net, PreTradeRisk.passes, returns] using h.slots,
      h.maxNetQty_eq, h.maxNotional_eq⟩
  | onCancel id side qty =>
    refine ⟨h.breaker, h.bucket, ?_, ?_, ?_⟩
    · intro i hi
      have hslot := h.slots i hi
      change (g.risk.positionLimits.onCancel id side qty).getNetQty i = _
      rw [getNetQty_onCancel _ _ _ _ hi, hslot, net, net]
      simp only [Gate.step, PreTradeRisk.passes, returns, List.append_nil, List.map_append,
        List.sum_append, List.map_cons, List.map_nil, List.sum_cons, List.sum_nil]
      omega
    · exact (PositionLimits.maxNetQty_onCancel ..).trans h.maxNetQty_eq
    · refine Eq.trans ?_ h.maxNotional_eq
      change (g.risk.positionLimits.onCancel id side qty).maxNotional = _
      unfold PositionLimits.onCancel
      split_ifs <;> rfl

/-! ## Every run -/

/-- The components after the calls. -/
def after (openThreshold maxNetQty maxNotional ratePerSec burst startNs : ℤ) (calls : List Call) :
    Gate :=
  Transition.run step (init openThreshold maxNetQty maxNotional ratePerSec burst startNs) calls

lemma inv_after (openThreshold maxNetQty maxNotional : ℤ) (hrate : 0 ≤ ratePerSec)
    (hburst : 0 ≤ burst) (startNs : ℤ) (calls : List Call) :
    Inv openThreshold maxNetQty maxNotional ratePerSec burst
      (after openThreshold maxNetQty maxNotional ratePerSec burst startNs calls) :=
  Transition.invariant_run_of_step (fun _ c h => h.step hrate c) (inv_init hburst startNs) calls

/-- A check looks at the history and at the bucket. -/
lemma Inv.check_iff {g : Gate} (h : Inv openThreshold maxNetQty maxNotional ratePerSec burst g)
    (nowNs : ℤ) (req : OrderRequest) :
    (g.risk.check nowNs req).2 = true ↔
      ¬CircuitBreaker.Tripped openThreshold g.deltas ∧ g.risk.rateLimiter.HasToken nowNs ∧
        req.instrumentId < maxInstruments ∧
        ¬(0 < req.price ∧ 0 < req.qty ∧ maxNotional < req.price * req.qty) ∧
        |g.net req.instrumentId + req.side.signed req.qty| ≤ maxNetQty := by
  rw [PreTradeRisk.check_snd, PreTradeRisk.Refuses, not_or, not_not, not_not,
    PositionLimits.Admits, h.maxNetQty_eq, h.maxNotional_eq]
  have hbreaker : g.risk.circuitBreaker.allowOrder = true ↔
      ¬CircuitBreaker.Tripped openThreshold g.deltas := by
    rw [← h.breaker.state_ne_closed_iff, ← CircuitBreaker.allowOrder_eq_false_iff,
      Bool.not_eq_false]
  rw [hbreaker]
  refine and_congr_right fun _ => and_congr_right fun _ => ?_
  refine and_congr_right fun hid => and_congr_right fun _ => ?_
  rw [h.slots _ hid, abs_le]

/-- The clock readings of the checks. -/
def checkTimes (calls : List Call) : List ℤ :=
  calls.filterMap fun
    | .check nowNs _ => some nowNs
    | _ => none

lemma exists_check_of_mem {calls : List Call} {t : ℤ} (h : t ∈ checkTimes calls) :
    ∃ req, Call.check t req ∈ calls := by
  obtain ⟨c, hc, htime⟩ := List.mem_filterMap.mp h
  cases c with
  | check nowNs req =>
    obtain rfl : nowNs = t := Option.some_inj.mp htime
    exact ⟨req, hc⟩
  | _ => cases htime

/-- A request passes only if the bucket grants a token. -/
lemma length_passes_le (risk : PreTradeRisk) (nowNs : ℤ) (req : OrderRequest) :
    ((risk.passes (.check nowNs req)).length : ℤ) ≤ risk.rateLimiter.granted nowNs := by
  rw [PreTradeRisk.passes, RateLimiter.granted, RateLimiter.tryAcquire_snd]
  by_cases hok : (risk.check nowNs req).2 = true
  · have htoken : risk.rateLimiter.HasToken nowNs := by
      have hpass := (PreTradeRisk.check_snd risk nowNs req).mp hok
      rw [PreTradeRisk.Refuses, not_or, not_not] at hpass
      exact hpass.2.1
    simp [hok, htoken]
  · split_ifs <;> simp

/-- The call comes to the bucket: it is a check, and the breaker lets it through. -/
lemma rateLimiter_step_of_allowed {g : Gate} (hopen : g.risk.circuitBreaker.allowOrder = true)
    (nowNs : ℤ) (req : OrderRequest) :
    (g.step (.check nowNs req)).risk.rateLimiter = g.risk.rateLimiter.next nowNs := by
  change (g.risk.check nowNs req).1.rateLimiter = _
  rw [rateLimiter_check, if_pos hopen]

/-- The call does not come to the bucket. -/
lemma step_of_not_allowed {g : Gate} {c : Call} (h : ¬∃ nowNs req, c = .check nowNs req ∧
    g.risk.circuitBreaker.allowOrder = true) :
    (g.step c).risk.rateLimiter = g.risk.rateLimiter ∧ g.risk.passes c = [] := by
  cases c with
  | check nowNs req =>
    have hclosed : g.risk.circuitBreaker.allowOrder = false := by
      rw [← Bool.not_eq_true]
      exact fun hopen => h ⟨nowNs, req, rfl, hopen⟩
    constructor
    · change (g.risk.check nowNs req).1.rateLimiter = _
      rw [rateLimiter_check, hclosed]
      rfl
    · simp [PreTradeRisk.passes, PreTradeRisk.check, hclosed]
  | _ => exact ⟨rfl, rfl⟩

/-- The requests that pass during some calls are granted by the bucket, which sees some of the
checks of these calls. -/
lemma passed_le_grants (g : Gate) (calls : List Call) :
    ∃ times : List ℤ, times.Sublist (checkTimes calls) ∧
      (Transition.run step g calls).risk.rateLimiter =
        Transition.run RateLimiter.next g.risk.rateLimiter times ∧
      (Transition.run step g calls).passed.length ≤
        g.passed.length + (g.risk.rateLimiter.grants times).count true := by
  induction calls generalizing g with
  | nil => exact ⟨[], List.nil_sublist _, rfl, by simp⟩
  | cons c calls ih =>
    obtain ⟨times, hsub, hrun, hcount⟩ := ih (g.step c)
    have hpassed : (g.step c).passed = g.passed ++ g.risk.passes c := rfl
    rw [hpassed, List.length_append] at hcount
    by_cases hbucket : ∃ nowNs req, c = .check nowNs req ∧
        g.risk.circuitBreaker.allowOrder = true
    · obtain ⟨nowNs, req, rfl, hopen⟩ := hbucket
      rw [rateLimiter_step_of_allowed hopen] at hrun hcount
      refine ⟨nowNs :: times, hsub.cons_cons nowNs, hrun, ?_⟩
      have hgrant := length_passes_le g.risk nowNs req
      have hcons := RateLimiter.count_grants_cons g.risk.rateLimiter nowNs times
      rw [Transition.run_cons]
      omega
    · have hsub' : times.Sublist (checkTimes (c :: calls)) := by
        rw [checkTimes, List.filterMap_cons]
        split
        · exact hsub
        · exact hsub.cons _
      obtain ⟨hsame, hnone⟩ := step_of_not_allowed hbucket
      rw [hsame] at hrun hcount
      rw [hnone, List.length_nil, Nat.add_zero] at hcount
      exact ⟨times, hsub', hrun, hcount⟩

/-- **The bucket bounds what passes.**  Of the checks among any calls that follow one another, with
clock readings between `fromNs` and `toNs`, at most as many pass as the burst and the rate allow for
this time, up to a thousandth of a token; whatever the breaker and the limits do in between. -/
theorem passed_window_le (openThreshold maxNetQty maxNotional : ℤ) (hrate : 0 ≤ ratePerSec)
    (hburst : 0 ≤ burst) (startNs : ℤ) (before window : List Call) {fromNs toNs : ℤ}
    (hspan : fromNs ≤ toNs)
    (hclock : ∀ nowNs req, Call.check nowNs req ∈ window → fromNs ≤ nowNs ∧ nowNs ≤ toNs) :
    1000 * (((after openThreshold maxNetQty maxNotional ratePerSec burst startNs
            (before ++ window)).passed.length : ℤ) -
          (after openThreshold maxNetQty maxNotional ratePerSec burst startNs
            before).passed.length) ≤
      1000 * burst + 1000 * ratePerSec * (toNs - fromNs) / 1000000000 + 1 := by
  have h := inv_after openThreshold maxNetQty maxNotional hrate hburst startNs before
  rw [after, Transition.run_append, ← after]
  generalize after openThreshold maxNetQty maxNotional ratePerSec burst startNs before = g at h
  obtain ⟨times, hsub, -, hcount⟩ := passed_le_grants g window
  have hspan' : 0 ≤ 1000 * ratePerSec * (toNs - fromNs) / 1000000000 :=
    Int.ediv_nonneg (mul_nonneg (by omega) (by omega)) (by decide)
  cases times with
  | nil =>
    rw [RateLimiter.grants, List.count_nil] at hcount
    omega
  | cons nowNs times =>
    have hall : ∀ t ∈ nowNs :: times, fromNs ≤ t ∧ t ≤ toNs := by
      intro t ht
      obtain ⟨req, hreq⟩ := exists_check_of_mem (hsub.subset ht)
      exact hclock t req hreq
    have hgrants := RateLimiter.grants_le_of_sane hrate h.bucket (hall nowNs List.mem_cons_self).2
      fun t ht => (hall t (List.mem_cons_of_mem nowNs ht)).2
    have hmono : 1000 * ratePerSec * (toNs - nowNs) / 1000000000 ≤
        1000 * ratePerSec * (toNs - fromNs) / 1000000000 := by
      apply Int.ediv_le_ediv (by decide)
      have hfrom := (hall nowNs List.mem_cons_self).1
      exact mul_le_mul_of_nonneg_left (by omega) (by omega)
    omega

/-- A request for one unit. -/
def unitRequest : OrderRequest :=
  { instrumentId := 1, side := .buy, price := 10, qty := 1 }

theorem passed_window_le_example :
    1000 * (((after (-50) 5 100 10 20 0
            ([.check 1 unitRequest] ++ [.check 2 unitRequest, .reset])).passed.length : ℤ) -
          (after (-50) 5 100 10 20 0 [.check 1 unitRequest]).passed.length) ≤
      1000 * 20 + 1000 * 10 * (2 - 2) / 1000000000 + 1 :=
  passed_window_le (-50) 5 100 (by decide) (by decide) 0 [.check 1 unitRequest]
    [.check 2 unitRequest, .reset] le_rfl (by
      intro nowNs req hmem
      simp only [List.mem_cons, Call.check.injEq, reduceCtorEq, List.not_mem_nil, or_false] at hmem
      omega)

end Gate

end QuantTrade
