import QuantTrade.Main.Rounds

/-!
# The daily loss limit

The circuit breaker is built with the daily loss limit and stands first in the risk check, but no
thread of the main program reports a profit or loss to it: it is closed in every state
(`allowOrder_after`).  So once the realized loss has reached the limit, a request is stopped only if
the rate limiter or the position limits stop it (`noneLater_iff_refused`).
-/

namespace QuantTrade

namespace DailyLossStop

open Pipeline

/-- Every fill reached the position manager, and what it realized is at or below the limit. -/
def LimitReached (cfg : Config) (s : Pipeline) : Prop :=
  s.fillsInFlight = [] ∧ s.posMgr.getTotalRealizedPnl ≤ cfg.dailyLossLimit

/-- No request passed the risk check after `o`, and so none but the earlier ones reached the
gateway. -/
def NoneLater (o o' : Observed) : Prop :=
  o'.journal.passed = o.journal.passed ∧ o'.journal.sent.map (·.req) <+: o.journal.passed

/-- A request that is checked finds no token, or it breaks the position limits. -/
def Refused (s : Pipeline) : Action → Prop
  | .oms reading => ∀ req, s.omsThread = .popped req → s.risk.Refuses reading.monotonicNs req
  | _ => True

/-- No call touches the breaker. -/
lemma circuitBreaker_step {s s' : Pipeline} {a : Action} (hs : Step s a s') :
    s'.risk.circuitBreaker = s.risk.circuitBreaker := by
  cases hs <;> simp

/-- The breaker is closed in every state. -/
lemma allowOrder_after (cfg : Config) (nowNs : ℤ) (as : List Action) :
    (Observed.after cfg nowNs as).sys.Wired ∧
      (Observed.after cfg nowNs as).sys.risk.circuitBreaker.allowOrder = true := by
  refine Observed.invariant_after (P := fun o => o.sys.risk.circuitBreaker.allowOrder = true) ?_ rfl
    as
  intro s j a s' hs _ h
  rw [circuitBreaker_step hs]
  exact h

/-- With a closed breaker nothing passes exactly when one of the other checks refuses. -/
lemma passes_eq_nil_iff {s : Pipeline} (hclosed : s.risk.circuitBreaker.allowOrder = true)
    (a : Action) : s.passes a = [] ↔ Refused s a := by
  cases a with
  | oms reading =>
    cases homs : s.omsThread with
    | popped req =>
      have hcheck := s.risk.check_snd reading.monotonicNs req
      simp only [hclosed, true_and] at hcheck
      simp [passes, Refused, homs, hcheck]
    | _ => simp [passes, Refused, homs]
  | _ => exact iff_of_true rfl trivial

/-- The invariant after the limit was reached at `o`, as long as nothing passes. -/
private structure Stopped (o o' : Observed) : Prop where
  wired : o'.sys.Wired
  closed : o'.sys.risk.circuitBreaker.allowOrder = true
  passed : o'.journal.passed = o.journal.passed
  inOrder : o'.InOrder

private lemma Stopped.noneLater {o o' : Observed} (h : Stopped o o') : NoneLater o o' := by
  refine ⟨h.passed, ?_⟩
  rw [← h.passed, h.inOrder]
  exact List.prefix_append _ _

/-- A call in which no request passes keeps what passed. -/
private lemma Stopped.step {o o' : Observed} (h : Stopped o o') {a : Action}
    (ha : Refused o'.sys a) : Stopped o (o'.step a) := by
  have hs := step_spec h.wired a
  refine ⟨h.wired.step hs, ?_, ?_, h.inOrder.step hs h.wired⟩
  · change (o'.sys.step a).risk.circuitBreaker.allowOrder = true
    rw [circuitBreaker_step hs]
    exact h.closed
  · change o'.journal.passed ++ o'.sys.passes a = _
    rw [(passes_eq_nil_iff h.closed a).mpr ha, List.append_nil, h.passed]

/-- A request that is not refused passes. -/
private lemma Stopped.not_noneLater {o o' : Observed} (h : Stopped o o') {a : Action}
    (ha : ¬Refused o'.sys a) : ¬NoneLater o (o'.step a) := by
  rintro ⟨hpassed, -⟩
  apply ha
  rw [← passes_eq_nil_iff h.closed]
  change o'.journal.passed ++ o'.sys.passes a = o.journal.passed at hpassed
  rw [h.passed] at hpassed
  exact List.append_right_eq_self.mp hpassed

/-- **Daily loss stop.**  Take any run up to a state in which every fill was processed and the
realized profit and loss is at or below the daily limit, and any continuation.  No later request
passes the risk check, and none reaches the gateway, exactly when the rate limiter or the position
limits refuse every request that is checked. -/
theorem noneLater_iff_refused (cfg : Config) (nowNs : ℤ) (early later : List Action) :
    (LimitReached cfg (Observed.after cfg nowNs early).sys →
      ∀ more, more <+: later →
        NoneLater (Observed.after cfg nowNs early) (Observed.after cfg nowNs (early ++ more))) ↔
    (LimitReached cfg (Observed.after cfg nowNs early).sys →
      Transition.Admissible step Refused (Observed.after cfg nowNs early).sys later) := by
  obtain ⟨hw, hclosed⟩ := allowOrder_after cfg nowNs early
  have hstart : Stopped (Observed.after cfg nowNs early) (Observed.after cfg nowNs early) :=
    ⟨hw, hclosed, rfl, Observed.inOrder_after cfg nowNs early⟩
  have hfirst := @Transition.forall_prefix_iff_of_step _ _ Observed.step
    (fun o a => Refused o.sys a) (Stopped (Observed.after cfg nowNs early))
    (NoneLater (Observed.after cfg nowNs early)) (fun _ h => h.noneLater)
    (fun _ _ ha h => h.step ha) (fun _ _ ha h => h.not_noneLater ha) _ later hstart
  rw [Transition.admissible_proj Observed.observe_sys] at hfirst
  apply imp_congr_right
  intro _
  rw [← hfirst]
  simp only [Observed.after, Transition.run_append]

/-- A limit of -10. -/
def smallLimit : Config where
  maxNotional := 1000
  maxNetQty := 100
  maxOrderRate := 10
  dailyLossLimit := -10

/-- A buy at 100 and a sell at 50 lose 50. -/
def losingTrades : List Action :=
  roundTrip { instrumentId := 42, side := .buy, price := 100, qty := 1 } ++
    roundTrip { instrumentId := 42, side := .sell, price := 50, qty := 1 }

/-- Another buy. -/
def anotherTrade : List Action :=
  roundTrip { instrumentId := 42, side := .buy, price := 100, qty := 1 }

/-- The fill that the position thread holds is on instrument `id`. -/
def TradesOnly (id : ℕ) (s : Pipeline) (_ : Action) : Prop :=
  ∀ fill ∈ s.posFill, fill.instrumentId = id

instance (id : ℕ) (s : Pipeline) : DecidablePred (TradesOnly id s) :=
  fun _ => inferInstanceAs (Decidable (∀ fill ∈ s.posFill, fill.instrumentId = id))

/-- The position manager has realized nothing but on instrument `id`. -/
private lemma realizedPnl_of_ne {cfg : Config} {nowNs : ℤ} {as : List Action} (id : ℕ)
    (has : Transition.Admissible step (TradesOnly id) (.init cfg nowNs) as) {i : ℕ} (hi : i ≠ id) :
    ((Observed.after cfg nowNs as).sys.posMgr.slots i).realizedPnl = 0 := by
  refine (Observed.invariant_run (P := fun o => (o.sys.posMgr.slots i).realizedPnl = 0) ?_
    (wired_init cfg nowNs) rfl has).2
  intro s j a s' hs hC _ h
  cases hs with
  | posUpdate fill hpos =>
    have hfill : fill.instrumentId = id := hC fill (by simp [posFill, hpos])
    have hother : (s.posMgr.onFill fill).slots i = s.posMgr.slots i := by
      unfold PositionManager.onFill
      split_ifs
      · rfl
      · exact Function.update_of_ne (fun heq => hi (heq.trans hfill)) _ _
    dsimp only
    rw [hother]
    exact h
  | _ => exact h

/-- After a loss of 50, with a limit of -10, another buy passes and reaches the gateway. -/
theorem not_noneLater_losingTrades :
    LimitReached smallLimit (Observed.after smallLimit 0 losingTrades).sys ∧
      (Observed.after smallLimit 0 (losingTrades ++ anotherTrade)).journal.passed.length = 3 ∧
      (Observed.after smallLimit 0 (losingTrades ++ anotherTrade)).journal.sent.length = 3 ∧
      ¬NoneLater (Observed.after smallLimit 0 losingTrades)
        (Observed.after smallLimit 0 (losingTrades ++ anotherTrade)) := by
  have hreached : LimitReached smallLimit (Observed.after smallLimit 0 losingTrades).sys := by
    constructor
    · decide +kernel
    · rw [PositionManager.getTotalRealizedPnl_of_single (by decide)
        (fun i hi => realizedPnl_of_ne 42 (by decide +kernel) hi)]
      decide +kernel
  have hbefore : (Observed.after smallLimit 0 losingTrades).journal.passed.length = 2 := by
    decide +kernel
  have hpassed : (Observed.after smallLimit 0 (losingTrades ++ anotherTrade)).journal.passed.length
      = 3 := by
    decide +kernel
  refine ⟨hreached, hpassed, by decide +kernel, ?_⟩
  intro h
  rw [h.1, hbefore] at hpassed
  exact absurd hpassed (by decide)

end DailyLossStop

end QuantTrade
