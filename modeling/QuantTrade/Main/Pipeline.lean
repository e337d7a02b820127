import QuantTrade.Execution.SmartRouter
import QuantTrade.Library.Transition
import QuantTrade.Oms.OMS
import QuantTrade.Position.PositionManager
import QuantTrade.Risk.PreTradeRisk

/-!
# The threads of the main program

The strategy, OMS, gateway and position threads of `src/main.cpp` with the components they share.  A
step of the system is one call of one thread; where a thread stands between two calls is kept in its
program counter, together with the local variables that are still needed.  The list of actions of a
run is the interleaving, and with each action of the OMS thread comes what its call reads from the
clock and from the random generator.
-/

namespace QuantTrade

/-- The settings that the main program passes on to its components. -/
structure Config where
  maxNotional : ℤ := 1000000
  maxNetQty : ℤ := 10000
  maxOrderRate : ℤ := 100
  dailyLossLimit : ℤ := -500000
  deriving DecidableEq, Repr

/-- Where the strategy thread stands. -/
inductive StrategyThread where
  | idle
  | popped (req : OrderRequest)
  deriving DecidableEq, Repr

/-- Where the OMS thread stands.  `order` is the pointer that `oms.submit` returned. -/
inductive OmsThread where
  | idle
  | popped (req : OrderRequest)
  | checked (req : OrderRequest)
  | submitted (req : OrderRequest) (order : Option ℕ)
  | executed (order : ℕ)
  | acked (order : ℕ)
  deriving DecidableEq, Repr

/-- Where the gateway thread stands. -/
inductive GwThread where
  | idle
  | hasCloid (cloid : ℕ)
  | hasFill (fill : FillEvent) (cloid : ℕ)
  | filled (fill : FillEvent) (cloid : ℕ)
  deriving DecidableEq, Repr

/-- Where the position thread stands. -/
inductive PosThread where
  | idle
  | popped (fill : FillEvent)
  | updated (fill : FillEvent)
  deriving DecidableEq, Repr

/-- The components and the threads. -/
structure Pipeline where
  orderQueue : SPSCQueue OrderRequest 1024
  stratToOmsQueue : SPSCQueue OrderRequest 1024
  omsToGwCloid : SPSCQueue ℕ 4096
  risk : PreTradeRisk
  oms : OMS
  router : SmartRouter
  simGw : SimGateway
  posMgr : PositionManager
  strategyThread : StrategyThread
  omsThread : OmsThread
  gwThread : GwThread
  posThread : PosThread

/-- `order->client_order_id`: the id behind a pointer to an order. -/
def OMS.idOf (s : OMS) (order : ℕ) : ℕ :=
  match s.pool.deref order with
  | some o => o.clientOrderId
  | none => 0

/-- What a call of the OMS thread reads: the monotonic clock, the time stamp counter and the random
generator. -/
structure Reading where
  monotonicNs : ℤ := 0
  rdtscNs : ℕ := 0
  draw : ℚ := 0

/-- One call: the strategy sends a request, or one of the threads goes on. -/
inductive Action where
  | sendOrder (req : OrderRequest)
  | strategy
  | oms (reading : Reading)
  | gw
  | pos

namespace Pipeline

/-- The components as the main program builds them; the rate limiter starts at time `nowNs`. -/
def init (cfg : Config) (nowNs : ℤ) : Pipeline where
  orderQueue := .empty (fun _ => {}) SPSCQueue.capacity_1024
  stratToOmsQueue := .empty (fun _ => {}) SPSCQueue.capacity_1024
  omsToGwCloid := .empty (fun _ => 0) SPSCQueue.capacity_4096
  risk :=
    { circuitBreaker := .init cfg.dailyLossLimit
      rateLimiter := .init cfg.maxOrderRate (cfg.maxOrderRate * 2) nowNs
      positionLimits := .init cfg.maxNetQty cfg.maxNotional }
  oms := .init
  router := .init 1
  simGw := .init 1 1000
  posMgr := .init
  strategyThread := .idle
  omsThread := .idle
  gwThread := .idle
  posThread := .idle

/-- `exec_engine.submit`: the router selects among the gateways, of which there is one. -/
def execSubmit (s : Pipeline) (req : OrderRequest) (reading : Reading) : Pipeline :=
  match s.router.select [some s.simGw.status] with
  | some _ => { s with simGw := s.simGw.sendNewOrder req reading.draw reading.rdtscNs }
  | none => { s with router := { s.router with dropped := s.router.dropped + 1 } }

/-- A call of the strategy thread. -/
def stepStrategy (s : Pipeline) : Pipeline :=
  match s.strategyThread with
  | .idle =>
    let s' := { s with orderQueue := s.orderQueue.pop.2 }
    match s.orderQueue.pop.1 with
    | some req => { s' with strategyThread := .popped req }
    | none => s'
  | .popped req =>
    -- a request that finds the queue full is lost
    { s with stratToOmsQueue := (s.stratToOmsQueue.push req).1, strategyThread := .idle }

/-- A call of the OMS thread. -/
def stepOms (s : Pipeline) (reading : Reading) : Pipeline :=
  match s.omsThread with
  | .idle =>
    let s' := { s with stratToOmsQueue := s.stratToOmsQueue.pop.2 }
    match s.stratToOmsQueue.pop.1 with
    | some req => { s' with omsThread := .popped req }
    | none => s'
  | .popped req =>
    let s' := { s with risk := (s.risk.check reading.monotonicNs req).1 }
    if (s.risk.check reading.monotonicNs req).2 then { s' with omsThread := .checked req }
    else { s' with omsThread := .idle }
  | .checked req =>
    { s with
      oms := (s.oms.submit req reading.rdtscNs).1
      omsThread := .submitted req (s.oms.submit req reading.rdtscNs).2 }
  | .submitted req order =>
    -- the request goes to the exchange whether or not the OMS took it
    { s.execSubmit req reading with
      omsThread :=
        match order with
        | some order => .executed order
        | none => .idle }
  | .executed order =>
    let ack : OrderAck :=
      { clientOrderId := s.oms.idOf order
        exchangeOrderId := s.oms.idOf order + 9000
        status := .new }
    { s with oms := (s.oms.onAck ack).1, omsThread := .acked order }
  | .acked order =>
    -- an id that finds the queue full is lost
    { s with omsToGwCloid := (s.omsToGwCloid.push (s.oms.idOf order)).1, omsThread := .idle }

/-- A call of the gateway thread. -/
def stepGw (s : Pipeline) : Pipeline :=
  match s.gwThread with
  | .idle =>
    let s' := { s with omsToGwCloid := s.omsToGwCloid.pop.2 }
    match s.omsToGwCloid.pop.1 with
    | some cloid => { s' with gwThread := .hasCloid cloid }
    | none => s'
  | .hasCloid cloid =>
    let s' := { s with simGw := s.simGw.popFill.2 }
    match s.simGw.popFill.1 with
    | some fill => { s' with gwThread := .hasFill { fill with clientOrderId := cloid } cloid }
    | none => { s' with gwThread := .idle }
  | .hasFill fill cloid => { s with oms := (s.oms.onFill fill).1, gwThread := .filled fill cloid }
  | .filled fill cloid =>
    { s with
      oms := if fill.remainingQty = 0 then s.oms.release cloid else s.oms
      gwThread := .idle }

/-- A call of the position thread. -/
def stepPos (s : Pipeline) : Pipeline :=
  match s.posThread with
  | .idle =>
    let s' := { s with oms := { s.oms with fillTracker := s.oms.fillTracker.popFill.2 } }
    match s.oms.fillTracker.popFill.1 with
    | some fill => { s' with posThread := .popped fill }
    | none => s'
  | .popped fill => { s with posMgr := s.posMgr.onFill fill, posThread := .updated fill }
  | .updated fill =>
    { s with
      risk :=
        { s.risk with
          positionLimits := s.risk.positionLimits.onFill fill.instrumentId fill.side fill.fillQty }
      posThread := .idle }

/-- A step of the system. -/
def step (s : Pipeline) : Action → Pipeline
  | .sendOrder req => { s with orderQueue := (s.orderQueue.push req).1 }
  | .strategy => s.stepStrategy
  | .oms reading => s.stepOms reading
  | .gw => s.stepGw
  | .pos => s.stepPos

/-! ## What a step can do -/

/-- The single gateway is connected, always fills, and the router selects it. -/
structure Wired (s : Pipeline) : Prop where
  connected : s.simGw.connected = true
  certain : s.simGw.fillProbability = 1
  depth : 0 < s.router.depthProxy.getD 0 1

lemma wired_init (cfg : Config) (nowNs : ℤ) : (init cfg nowNs).Wired :=
  ⟨rfl, rfl, one_pos⟩

/-- In the main program every submitted request reaches the gateway, which fills it. -/
lemma execSubmit_of_wired {s : Pipeline} (h : s.Wired) (req : OrderRequest) (reading : Reading) :
    s.execSubmit req reading =
      { s with
        simGw :=
          { s.simGw with
            submittedOrders := s.simGw.submittedOrders ++ [req]
            fillQueue := s.simGw.fillQueue ++ [s.simGw.fillOf req reading.rdtscNs]
            nextExchangeId := s.simGw.nextExchangeId + 1 } } := by
  have hselect : s.router.select [some s.simGw.status] = some 0 :=
    SmartRouter.select_singleton h.depth h.connected
  rw [execSubmit, hselect]
  exact congrArg (fun gw => { s with simGw := gw })
    (SimGateway.sendNewOrder_of_certain h.certain ..)

/-- The calls one by one: what each finds and what it leaves. -/
inductive Step (s : Pipeline) : Action → Pipeline → Prop
  | sendOrder (req : OrderRequest) :
    Step s (.sendOrder req) { s with orderQueue := (s.orderQueue.push req).1 }
  | strategyEmpty (h : s.strategyThread = .idle) (hq : s.orderQueue.contents = []) :
    Step s .strategy { s with orderQueue := s.orderQueue.pop.2 }
  | strategyPop (req : OrderRequest) (rest : List OrderRequest) (h : s.strategyThread = .idle)
      (hq : s.orderQueue.contents = req :: rest) :
    Step s .strategy { s with orderQueue := s.orderQueue.pop.2, strategyThread := .popped req }
  | strategyPush (req : OrderRequest) (h : s.strategyThread = .popped req) :
    Step s .strategy
      { s with stratToOmsQueue := (s.stratToOmsQueue.push req).1, strategyThread := .idle }
  | omsEmpty (reading : Reading) (h : s.omsThread = .idle) (hq : s.stratToOmsQueue.contents = []) :
    Step s (.oms reading) { s with stratToOmsQueue := s.stratToOmsQueue.pop.2 }
  | omsPop (reading : Reading) (req : OrderRequest) (rest : List OrderRequest)
      (h : s.omsThread = .idle) (hq : s.stratToOmsQueue.contents = req :: rest) :
    Step s (.oms reading)
      { s with stratToOmsQueue := s.stratToOmsQueue.pop.2, omsThread := .popped req }
  | omsPass (reading : Reading) (req : OrderRequest) (h : s.omsThread = .popped req)
      (hok : (s.risk.check reading.monotonicNs req).2 = true) :
    Step s (.oms reading)
      { s with risk := (s.risk.check reading.monotonicNs req).1, omsThread := .checked req }
  | omsRefuse (reading : Reading) (req : OrderRequest) (h : s.omsThread = .popped req)
      (hok : (s.risk.check reading.monotonicNs req).2 = false) :
    Step s (.oms reading)
      { s with risk := (s.risk.check reading.monotonicNs req).1, omsThread := .idle }
  | omsSubmit (reading : Reading) (req : OrderRequest) (h : s.omsThread = .checked req) :
    Step s (.oms reading)
      { s with
        oms := (s.oms.submit req reading.rdtscNs).1
        omsThread := .submitted req (s.oms.submit req reading.rdtscNs).2 }
  | omsSend (reading : Reading) (req : OrderRequest) (order : Option ℕ)
      (h : s.omsThread = .submitted req order) :
    Step s (.oms reading)
      { s with
        simGw :=
          { s.simGw with
            submittedOrders := s.simGw.submittedOrders ++ [req]
            fillQueue := s.simGw.fillQueue ++ [s.simGw.fillOf req reading.rdtscNs]
            nextExchangeId := s.simGw.nextExchangeId + 1 }
        omsThread := order.elim .idle .executed }
  | omsAck (reading : Reading) (order : ℕ) (h : s.omsThread = .executed order) :
    Step s (.oms reading)
      { s with
        oms := (s.oms.onAck
          { clientOrderId := s.oms.idOf order
            exchangeOrderId := s.oms.idOf order + 9000
            status := .new }).1
        omsThread := .acked order }
  | omsPush (reading : Reading) (order : ℕ) (h : s.omsThread = .acked order) :
    Step s (.oms reading)
      { s with omsToGwCloid := (s.omsToGwCloid.push (s.oms.idOf order)).1, omsThread := .idle }
  | gwEmpty (h : s.gwThread = .idle) (hq : s.omsToGwCloid.contents = []) :
    Step s .gw { s with omsToGwCloid := s.omsToGwCloid.pop.2 }
  | gwPop (cloid : ℕ) (rest : List ℕ) (h : s.gwThread = .idle)
      (hq : s.omsToGwCloid.contents = cloid :: rest) :
    Step s .gw { s with omsToGwCloid := s.omsToGwCloid.pop.2, gwThread := .hasCloid cloid }
  | gwNoFill (cloid : ℕ) (h : s.gwThread = .hasCloid cloid) (hq : s.simGw.fillQueue = []) :
    Step s .gw { s with gwThread := .idle }
  | gwFill (cloid : ℕ) (fill : FillEvent) (rest : List FillEvent)
      (h : s.gwThread = .hasCloid cloid) (hq : s.simGw.fillQueue = fill :: rest) :
    Step s .gw
      { s with
        simGw := { s.simGw with fillQueue := rest }
        gwThread := .hasFill { fill with clientOrderId := cloid } cloid }
  | gwOnFill (fill : FillEvent) (cloid : ℕ) (h : s.gwThread = .hasFill fill cloid) :
    Step s .gw { s with oms := (s.oms.onFill fill).1, gwThread := .filled fill cloid }
  | gwRelease (fill : FillEvent) (cloid : ℕ) (h : s.gwThread = .filled fill cloid) :
    Step s .gw
      { s with
        oms := if fill.remainingQty = 0 then s.oms.release cloid else s.oms
        gwThread := .idle }
  | posEmpty (h : s.posThread = .idle) (hq : s.oms.fillTracker.fillQueue.contents = []) :
    Step s .pos { s with oms := { s.oms with fillTracker := s.oms.fillTracker.popFill.2 } }
  | posPop (fill : FillEvent) (rest : List FillEvent) (h : s.posThread = .idle)
      (hq : s.oms.fillTracker.fillQueue.contents = fill :: rest) :
    Step s .pos
      { s with
        oms := { s.oms with fillTracker := s.oms.fillTracker.popFill.2 }
        posThread := .popped fill }
  | posUpdate (fill : FillEvent) (h : s.posThread = .popped fill) :
    Step s .pos { s with posMgr := s.posMgr.onFill fill, posThread := .updated fill }
  | posDone (fill : FillEvent) (h : s.posThread = .updated fill) :
    Step s .pos { s with posThread := .idle }

/-- Every step is one of these calls. -/
theorem step_spec {s : Pipeline} (hw : s.Wired) (a : Action) : Step s a (s.step a) := by
  cases a with
  | sendOrder req => exact .sendOrder req
  | strategy =>
    cases h : s.strategyThread with
    | idle =>
      cases hq : s.orderQueue.contents with
      | nil => simpa [step, stepStrategy, h, hq] using Step.strategyEmpty h hq
      | cons req rest => simpa [step, stepStrategy, h, hq] using Step.strategyPop req rest h hq
    | popped req => simpa [step, stepStrategy, h] using Step.strategyPush req h
  | oms reading =>
    cases h : s.omsThread with
    | idle =>
      cases hq : s.stratToOmsQueue.contents with
      | nil => simpa [step, stepOms, h, hq] using Step.omsEmpty reading h hq
      | cons req rest => simpa [step, stepOms, h, hq] using Step.omsPop reading req rest h hq
    | popped req =>
      cases hok : (s.risk.check reading.monotonicNs req).2 with
      | true => simpa [step, stepOms, h, hok] using Step.omsPass reading req h hok
      | false => simpa [step, stepOms, h, hok] using Step.omsRefuse reading req h hok
    | checked req => simpa [step, stepOms, h] using Step.omsSubmit reading req h
    | submitted req order =>
      have hsend := Step.omsSend reading req order h
      cases order <;> simpa [step, stepOms, h, execSubmit_of_wired hw] using hsend
    | executed order => simpa [step, stepOms, h] using Step.omsAck reading order h
    | acked order => simpa [step, stepOms, h] using Step.omsPush reading order h
  | gw =>
    cases h : s.gwThread with
    | idle =>
      cases hq : s.omsToGwCloid.contents with
      | nil => simpa [step, stepGw, h, hq] using Step.gwEmpty h hq
      | cons cloid rest => simpa [step, stepGw, h, hq] using Step.gwPop cloid rest h hq
    | hasCloid cloid =>
      cases hq : s.simGw.fillQueue with
      | nil => simpa [step, stepGw, h, SimGateway.popFill, hq] using Step.gwNoFill cloid h hq
      | cons fill rest =>
        simpa [step, stepGw, h, SimGateway.popFill, hq] using Step.gwFill cloid fill rest h hq
    | hasFill fill cloid => simpa [step, stepGw, h] using Step.gwOnFill fill cloid h
    | filled fill cloid => simpa [step, stepGw, h] using Step.gwRelease fill cloid h
  | pos =>
    cases h : s.posThread with
    | idle =>
      cases hq : s.oms.fillTracker.fillQueue.contents with
      | nil => simpa [step, stepPos, h, hq] using Step.posEmpty h hq
      | cons fill rest => simpa [step, stepPos, h, hq] using Step.posPop fill rest h hq
    | popped fill => simpa [step, stepPos, h] using Step.posUpdate fill h
    | updated fill => simpa [step, stepPos, h] using Step.posDone fill h

/-- No thread is in the middle of an iteration. -/
def Idle (s : Pipeline) : Prop :=
  s.strategyThread = .idle ∧ s.omsThread = .idle ∧ s.gwThread = .idle ∧ s.posThread = .idle

/-- Every queue is empty and no thread is in the middle of an iteration. -/
def Drained (s : Pipeline) : Prop :=
  s.Idle ∧ s.orderQueue.contents = [] ∧ s.stratToOmsQueue.contents = [] ∧
    s.omsToGwCloid.contents = [] ∧ s.simGw.fillQueue = [] ∧
    s.oms.fillTracker.fillQueue.contents = []

end Pipeline

end QuantTrade
