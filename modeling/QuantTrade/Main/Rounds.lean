import QuantTrade.Main.OrderIds

/-!
# Requests one at a time

What happens when a request is sent to a pipeline that waits for one and the threads take it up in
turn: the strategy and the OMS thread pass it on to the gateway (`run_requestRound`), the gateway
thread reports its fill (`run_gwRound`), the position thread books it (`run_posRound`).  A stream
of buys of one unit passes the risk check as long as the limits are not used up (`Admits.step`).
-/

namespace QuantTrade

namespace Pipeline

/-- The strategy sends a request, it is checked and submitted to the OMS. -/
def submitRound (req : OrderRequest) (reading : Reading) : List Action :=
  [.sendOrder req, .strategy, .strategy] ++ List.replicate 3 (.oms reading)

/-- The strategy sends a request, and the OMS thread passes it on to the gateway. -/
def requestRound (req : OrderRequest) (reading : Reading) : List Action :=
  submitRound req reading ++ List.replicate 3 (.oms reading)

/-- The gateway thread fetches an id and a fill, reports the fill and releases the order. -/
def gwRound : List Action :=
  List.replicate 4 .gw

/-- The position thread books a fill. -/
def posRound : List Action :=
  List.replicate 3 .pos

/-- All that happens to a request: the strategy sends it, the threads pass it on, and its fill is
processed. -/
def roundTrip (req : OrderRequest) : List Action :=
  requestRound req {} ++ gwRound ++ posRound

/-- The strategy and the OMS thread wait for a request. -/
structure Waiting (s : Pipeline) : Prop where
  wired : s.Wired
  ids : s.IdsInv
  strategyThread : s.strategyThread = .idle
  omsThread : s.omsThread = .idle
  orderQueue : s.orderQueue.contents = []
  stratToOmsQueue : s.stratToOmsQueue.contents = []

lemma waiting_init (cfg : Config) (nowNs : ℤ) : (init cfg nowNs).Waiting :=
  ⟨wired_init cfg nowNs, idsInv_init cfg nowNs, rfl, rfl, by simp [init], by simp [init]⟩

variable {s : Pipeline}

/-- The ids stay in order in every run. -/
lemma idsInv_run (hw : s.Wired) (h : s.IdsInv) (as : List Action) :
    (Transition.run step s as).Wired ∧ (Transition.run step s as).IdsInv := by
  refine Transition.invariant_run_of_step (P := fun s : Pipeline => s.Wired ∧ s.IdsInv) ?_
    ⟨hw, h⟩ as
  intro s a h
  exact ⟨h.1.step (step_spec h.1 a), h.2.step (step_spec h.1 a)⟩

/-- A request that is sent comes to the OMS thread. -/
lemma run_fetch (h : s.Waiting) (req : OrderRequest) (reading : Reading) :
    Transition.run step s [.sendOrder req, .strategy, .strategy, .oms reading] =
      { s with
        orderQueue := (s.orderQueue.push req).1.pop.2
        stratToOmsQueue := (s.stratToOmsQueue.push req).1.pop.2
        omsThread := .popped req } := by
  obtain ⟨-, -, hstrat, homs, horders, hrequests⟩ := h
  have hpop : (s.orderQueue.push req).1.pop.1 = some req := by
    simp [horders, BoundedFifo.push]
  have hpop' : (s.stratToOmsQueue.push req).1.pop.1 = some req := by
    simp [hrequests, BoundedFifo.push]
  simp [step, stepStrategy, stepOms, hstrat, homs, hpop, hpop', -SPSCQueue.pop_fst]

/-- A request that passes the risk check is submitted to the OMS. -/
lemma run_submit (h : s.Waiting) {req : OrderRequest} {reading : Reading}
    (hpass : (s.risk.check reading.monotonicNs req).2 = true) :
    Transition.run step s (submitRound req reading) =
      { s with
        orderQueue := (s.orderQueue.push req).1.pop.2
        stratToOmsQueue := (s.stratToOmsQueue.push req).1.pop.2
        risk := (s.risk.check reading.monotonicNs req).1
        oms := (s.oms.submit req reading.rdtscNs).1
        omsThread := .submitted req (s.oms.submit req reading.rdtscNs).2 } := by
  have hsplit : submitRound req reading =
      [.sendOrder req, .strategy, .strategy, .oms reading] ++ [.oms reading, .oms reading] := rfl
  rw [hsplit, Transition.run_append, run_fetch h]
  simp [step, stepOms, hpass]

/-- The OMS after a request was submitted and acknowledged. -/
def submitAck (oms : OMS) (req : OrderRequest) (nowNs order : ℕ) : OMS :=
  ((oms.submit req nowNs).1.onAck
    { clientOrderId := (oms.submit req nowNs).1.idOf order
      exchangeOrderId := (oms.submit req nowNs).1.idOf order + 9000
      status := .new }).1

/-- A request that passes the risk check and finds a free slot goes all the way to the gateway. -/
theorem run_requestRound (h : s.Waiting) {req : OrderRequest} {reading : Reading}
    (hpass : (s.risk.check reading.monotonicNs req).2 = true) {order : ℕ}
    (horder : (s.oms.submit req reading.rdtscNs).2 = some order) :
    Transition.run step s (requestRound req reading) =
      { s with
        orderQueue := (s.orderQueue.push req).1.pop.2
        stratToOmsQueue := (s.stratToOmsQueue.push req).1.pop.2
        risk := (s.risk.check reading.monotonicNs req).1
        oms := submitAck s.oms req reading.rdtscNs order
        simGw :=
          { s.simGw with
            submittedOrders := s.simGw.submittedOrders ++ [req]
            fillQueue := s.simGw.fillQueue ++ [s.simGw.fillOf req reading.rdtscNs]
            nextExchangeId := s.simGw.nextExchangeId + 1 }
        omsToGwCloid := (s.omsToGwCloid.push
          ((submitAck s.oms req reading.rdtscNs order).idOf order)).1 } := by
  have hwired : Wired
      { s with
        orderQueue := (s.orderQueue.push req).1.pop.2
        stratToOmsQueue := (s.stratToOmsQueue.push req).1.pop.2
        risk := (s.risk.check reading.monotonicNs req).1
        oms := (s.oms.submit req reading.rdtscNs).1
        omsThread := .submitted req (s.oms.submit req reading.rdtscNs).2 } :=
    ⟨h.wired.connected, h.wired.certain, h.wired.depth⟩
  rw [requestRound, Transition.run_append, run_submit h hpass]
  simp only [List.replicate, Transition.run_cons, Transition.run_nil, step, stepOms, horder,
    execSubmit_of_wired (horder ▸ hwired)]
  simp only [submitAck, h.omsThread]

/-- The gateway thread fetches the next id and the next fill and reports the one under the other. -/
theorem run_gwRound (hgw : s.gwThread = .idle) {cloid : ℕ} {cloids : List ℕ}
    (hcloid : s.omsToGwCloid.contents = cloid :: cloids) {fill : FillEvent} {fills : List FillEvent}
    (hfill : s.simGw.fillQueue = fill :: fills) :
    Transition.run step s gwRound =
      { s with
        omsToGwCloid := s.omsToGwCloid.pop.2
        simGw := { s.simGw with fillQueue := fills }
        oms :=
          if fill.remainingQty = 0 then
            (s.oms.onFill { fill with clientOrderId := cloid }).1.release cloid
          else (s.oms.onFill { fill with clientOrderId := cloid }).1 } := by
  simp [gwRound, step, stepGw, hgw, hcloid, SimGateway.popFill, hfill]

/-- The position thread fetches the next fill and books it. -/
theorem run_posRound (hpos : s.posThread = .idle) {fill : FillEvent} {fills : List FillEvent}
    (hfill : s.oms.fillTracker.fillQueue.contents = fill :: fills) :
    Transition.run step s posRound =
      { s with
        oms := { s.oms with fillTracker := s.oms.fillTracker.popFill.2 }
        posMgr := s.posMgr.onFill fill } := by
  simp [posRound, step, stepPos, hpos, hfill]

/-! ## A stream of buys -/

/-- A buy of one unit. -/
def unitBuy : OrderRequest where
  instrumentId := 42
  side := .buy
  price := 1
  qty := 1

/-- The risk check after `k` buys of one unit: whenever they were checked, at most `k` tokens are
gone. -/
structure Admitting (cfg : Config) (k : ℕ) (risk : PreTradeRisk) : Prop where
  closed : risk.circuitBreaker.allowOrder = true
  burst : risk.rateLimiter.burstScaled = cfg.maxOrderRate * 2 * 1000
  tokens_le : risk.rateLimiter.tokens ≤ risk.rateLimiter.burstScaled
  le_tokens : cfg.maxOrderRate * 2 * 1000 ≤ risk.rateLimiter.tokens + 1000 * k
  maxNotional : risk.positionLimits.maxNotional = cfg.maxNotional
  maxNetQty : risk.positionLimits.maxNetQty = cfg.maxNetQty
  netQty : risk.positionLimits.getNetQty 42 = k

lemma admitting_init (cfg : Config) (nowNs : ℤ) : Admitting cfg 0 (init cfg nowNs).risk :=
  ⟨rfl, rfl, Int.le_refl _, by simp [init, RateLimiter.init], rfl, rfl, rfl⟩

/-- The settings let `n` buys of one unit through. -/
structure Lets (cfg : Config) (n : ℕ) : Prop where
  rate : n ≤ cfg.maxOrderRate * 2
  notional : 1 ≤ cfg.maxNotional
  netQty : n ≤ cfg.maxNetQty

instance (cfg : Config) (n : ℕ) : Decidable (Lets cfg n) :=
  decidable_of_iff (n ≤ cfg.maxOrderRate * 2 ∧ 1 ≤ cfg.maxNotional ∧ n ≤ cfg.maxNetQty)
    ⟨fun h => ⟨h.1, h.2.1, h.2.2⟩, fun h => ⟨h.1, h.2, h.3⟩⟩

/-- The next buy passes as long as the limits are not used up. -/
theorem Admitting.check {cfg : Config} {k n : ℕ} {risk : PreTradeRisk} (h : Admitting cfg k risk)
    (hlets : Lets cfg n) (hk : k < n) (nowNs : ℤ) :
    (risk.check nowNs unitBuy).2 = true ∧ Admitting cfg (k + 1) (risk.check nowNs unitBuy).1 := by
  obtain ⟨hclosed, hburst, htokens, htokens', hnotional, hnet, hqty⟩ := h
  obtain ⟨hrate, hone, hmax⟩ := hlets
  obtain ⟨hlow, hhigh⟩ := risk.rateLimiter.refill_bounds htokens nowNs
  have htoken : risk.rateLimiter.HasToken nowNs := by
    unfold RateLimiter.HasToken
    omega
  have hadmits : risk.positionLimits.Admits 42 .buy 1 1 := by
    refine ⟨by decide, by omega, ?_, ?_⟩
    · simp only [hqty, hnet, Side.signed]
      omega
    · simp only [hqty, hnet, Side.signed]
      omega
  rw [PreTradeRisk.check_of_pass hclosed htoken hadmits]
  refine ⟨rfl, hclosed, ?_, ?_, ?_, hnotional, hnet, ?_⟩
  · exact (RateLimiter.burstScaled_refill ..).trans hburst
  · dsimp only
    rw [RateLimiter.burstScaled_refill]
    omega
  · dsimp only
    omega
  · have hslot : risk.positionLimits.slots 42 = k := hqty
    change Function.update risk.positionLimits.slots 42
      (risk.positionLimits.slots 42 + Side.buy.signed 1) 42 = ((k + 1 : ℕ) : ℤ)
    rw [Function.update_self, hslot, Nat.cast_succ]
    rfl

/-- What a buy that passes the check and finds a free slot leaves behind. -/
structure Bought (s s' : Pipeline) (reading : Reading) : Prop where
  waiting : s'.Waiting
  activeOrders : s'.oms.activeOrders = s.oms.activeOrders + 1
  fillTracker : s'.oms.fillTracker = s.oms.fillTracker
  fillQueue : s'.simGw.fillQueue =
    s.simGw.fillQueue ++ [s.simGw.fillOf unitBuy reading.rdtscNs]
  cloids : ∃ cloid, s'.omsToGwCloid.contents =
    (BoundedFifo.push 4096 s.omsToGwCloid.contents cloid).1
  posMgr : s'.posMgr = s.posMgr
  gwThread : s'.gwThread = s.gwThread
  posThread : s'.posThread = s.posThread

/-- **A buy** passes the check and goes to the gateway, as long as the limits are not used up and
the OMS has a free slot. -/
theorem run_unitBuy {cfg : Config} {k n : ℕ} (h : s.Waiting) (hrisk : Admitting cfg k s.risk)
    (hlets : Lets cfg n) (hk : k < n) (hroom : s.oms.activeOrders < poolSize) (reading : Reading) :
    Bought s (Transition.run step s (requestRound unitBuy reading)) reading ∧
      Admitting cfg (k + 1) (Transition.run step s (requestRound unitBuy reading)).risk := by
  obtain ⟨hpass, hrisk'⟩ := hrisk.check hlets hk reading.monotonicNs
  obtain ⟨order, horder, hsub⟩ := OMS.submit_of_room h.ids.store hroom unitBuy reading.rdtscNs
  have hinv := idsInv_run h.wired h.ids (requestRound unitBuy reading)
  rw [run_requestRound h hpass horder] at hinv ⊢
  refine ⟨⟨⟨hinv.1, hinv.2, h.strategyThread, h.omsThread, ?_, ?_⟩, ?_, ?_, rfl, ?_, rfl, rfl,
    rfl⟩, hrisk'⟩
  · simp [h.orderQueue, BoundedFifo.push]
  · simp [h.stratToOmsQueue, BoundedFifo.push]
  · exact (OMS.activeOrders_updateOrder).trans hsub.activeOrders
  · exact (OMS.fillTracker_updateOrder).trans hsub.fillTracker
  · exact ⟨_, SPSCQueue.contents_push ..⟩

/-- Settings that let a hundred thousand buys through. -/
def wideLimits : Config where
  maxNetQty := 100000
  maxOrderRate := 100000

/-- What the OMS thread reads in round `k`: the clocks go on by one. -/
def readingAt (k : ℕ) : Reading where
  monotonicNs := k
  rdtscNs := k

/-- A buy of three units and a sell of one: while the gateway reports the fill of the first, the
OMS thread passes on the second. -/
def twoRequests : List Action :=
  [.sendOrder { unitBuy with qty := 3 }, .strategy, .sendOrder { unitBuy with side := .sell }] ++
    List.replicate 3 .strategy ++ List.replicate 6 (.oms {}) ++
    [.oms {}, .gw, .oms {}, .gw, .oms {}, .gw, .pos, .oms {}, .gw, .oms {}, .oms {}, .gw, .pos] ++
    List.replicate 3 .gw ++ List.replicate 4 .pos

end Pipeline

end QuantTrade
