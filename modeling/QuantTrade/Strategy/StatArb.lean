import QuantTrade.Infra.SPSCQueue
import QuantTrade.Library.Transition
import QuantTrade.MarketData.Types
import QuantTrade.Oms.Order
import QuantTrade.Strategy.WelfordStat

/-!
# Statistical arbitrage

`StatArb` of `src/strategy/stat_arb.{hpp,cpp}` with its base class `StrategyBase`: when the spread
of two instruments is far from its mean, the strategy buys one and sells the other, and closes both
later.  A pair is sent by two pushes, between which the consumer may pop; a call returns, besides
the strategy, the orders that got into the queue.  The inventories, which no decision looks at, are
left out.
-/

namespace QuantTrade

/-- `StatArb::ArbState`. -/
inductive ArbState where
  | flat
  | longSpread
  | shortSpread
  deriving DecidableEq, Repr

/-- The state of the strategy, with the queue of `StrategyBase`, whose instrument is the first leg.
-/
structure StatArb (F : Type) where
  instrumentId : ℕ
  /-- Strategy to OMS. -/
  orderQueue : SPSCQueue OrderRequest 1024
  instrumentB : ℕ
  hedgeRatio : F
  orderQty : ℤ
  entryZ : F
  exitZ : F
  stopZ : F
  lastMidA : ℤ
  lastMidB : ℤ
  stat : WelfordStat F
  currentZ : F
  state : ArbState

namespace StatArb

variable {F : Type}

/-! ## A pair of orders -/

/-- `StrategyBase::send_order`; its result is not looked at. -/
def sendOrder (a : StatArb F) (req : OrderRequest) : StatArb F × List OrderRequest :=
  ({ a with orderQueue := (a.orderQueue.push req).1 },
    if (a.orderQueue.push req).2 then [req] else [])

/-- `StrategyBase::pop_order`, some times. -/
def popOrders (a : StatArb F) (pops : ℕ) : StatArb F :=
  { a with orderQueue := (fun q => q.pop.2)^[pops] a.orderQueue }

/-- The request for the first leg. -/
def legA (a : StatArb F) (side : Side) : OrderRequest where
  instrumentId := a.instrumentId
  side := side
  type := .ioc
  price := a.lastMidA
  qty := a.orderQty

/-- The request for the second leg. -/
def legB (a : StatArb F) (side : Side) : OrderRequest where
  instrumentId := a.instrumentB
  side := side
  type := .ioc
  price := a.lastMidB
  qty := a.orderQty

/-- `send_pair`, with the pops of the consumer between the two pushes. -/
def sendPair (a : StatArb F) (sideA sideB : Side) (pops : ℕ) : StatArb F × List OrderRequest :=
  let first := a.sendOrder (a.legA sideA)
  let second := (first.1.popOrders pops).sendOrder (a.legB sideB)
  (second.1, first.2 ++ second.2)

/-- The state after a call that returns a strategy and orders. -/
def enter (state : ArbState) (result : StatArb F × List OrderRequest) :
    StatArb F × List OrderRequest :=
  ({ result.1 with state := state }, result.2)

variable [Doubles F]

open Doubles

/-! ## The strategy -/

/-- The constructor. -/
def init (instrumentA instrumentB : ℕ) (hedgeRatio : F) (orderQty : ℤ) (entryZ exitZ stopZ : F)
    (lookback : ℕ) : StatArb F where
  instrumentId := instrumentA
  orderQueue := .empty (fun _ => {}) SPSCQueue.capacity_1024
  instrumentB := instrumentB
  hedgeRatio := hedgeRatio
  orderQty := orderQty
  entryZ := entryZ
  exitZ := exitZ
  stopZ := stopZ
  lastMidA := 0
  lastMidB := 0
  stat := .init lookback
  currentZ := lit 0
  state := .flat

/-- `try_open`. -/
def tryOpen (a : StatArb F) (pops : ℕ) : StatArb F × List OrderRequest :=
  if lt a.entryZ a.currentZ then enter .shortSpread (a.sendPair .sell .buy pops)
  else if lt a.currentZ (-a.entryZ) then enter .longSpread (a.sendPair .buy .sell pops)
  else (a, [])

/-- `try_close`. -/
def tryClose (a : StatArb F) (pops : ℕ) : StatArb F × List OrderRequest :=
  let az := if lt a.currentZ (lit 0) then -a.currentZ else a.currentZ
  let revert := lt az a.exitZ
  let stop := lt a.stopZ az
  if !revert && !stop then (a, [])
  else if a.state = .longSpread then enter .flat (a.sendPair .sell .buy pops)
  else enter .flat (a.sendPair .buy .sell pops)

/-- The middle of the prices is noted for its leg; other instruments are not for this strategy. -/
def noteMid (a : StatArb F) (e : BBOEvent) : Option (StatArb F) :=
  if e.instrumentId = a.instrumentId then some { a with lastMidA := e.midPrice }
  else if e.instrumentId = a.instrumentB then some { a with lastMidB := e.midPrice }
  else none

/-- The part of `on_bbo_impl` between the middle and the decision: whether there is one, and the
strategy with the new score. -/
def rescore (a : StatArb F) : Bool × StatArb F :=
  if a.lastMidA = 0 ∨ a.lastMidB = 0 then (false, a)
  else
    let spread : F := ofInt a.lastMidA - a.hedgeRatio * ofInt a.lastMidB
    let a := { a with stat := a.stat.update spread }
    if a.stat.count < a.stat.window / 4 then (false, a)
    else (true, { a with currentZ := (spread - a.stat.mean) / a.stat.stddev })

/-- What `on_bbo_impl` does before it decides. -/
def observe (a : StatArb F) (e : BBOEvent) : Bool × StatArb F :=
  if !e.isValidBbo then (false, a)
  else
    match a.noteMid e with
    | none => (false, a)
    | some a => a.rescore

/-- `on_bbo_impl`. -/
def onBboImpl (a : StatArb F) (e : BBOEvent) (pops : ℕ) : StatArb F × List OrderRequest :=
  let (decides, a) := a.observe e
  if !decides then (a, [])
  else if a.state = .flat then a.tryOpen pops
  else a.tryClose pops

/-! ## What an event sends -/

/-- The test of `try_close`: the score is back at the mean, or too far away from it. -/
def closes (a : StatArb F) : Bool :=
  let az := if lt a.currentZ (lit 0) then -a.currentZ else a.currentZ
  lt az a.exitZ || lt a.stopZ az

/-- The side of the first leg that closes the position. -/
def closingSide (a : StatArb F) : Side :=
  if a.state = .longSpread then .sell else .buy

/-- The pair that is to be sent: the state that it leads to, and the side of its first leg. -/
def decision (a : StatArb F) : Option (ArbState × Side) :=
  if a.state = .flat then
    if lt a.entryZ a.currentZ then some (.shortSpread, .sell)
    else if lt a.currentZ (-a.entryZ) then some (.longSpread, .buy)
    else none
  else if a.closes then some (.flat, a.closingSide)
  else none

/-- The pair that an event is to send. -/
def trade (a : StatArb F) (e : BBOEvent) : Option (ArbState × Side) :=
  if (a.observe e).1 then (a.observe e).2.decision else none

/-- The side of the second leg. -/
def otherSide : Side → Side
  | .buy => .sell
  | .sell => .buy

variable {a : StatArb F} {e : BBOEvent}

lemma onBboImpl_eq (a : StatArb F) (e : BBOEvent) (pops : ℕ) :
    a.onBboImpl e pops =
      if (a.observe e).1 then
        (if (a.observe e).2.state = .flat then (a.observe e).2.tryOpen pops
          else (a.observe e).2.tryClose pops)
      else ((a.observe e).2, []) := by
  unfold onBboImpl
  rcases a.observe e with ⟨decides, a'⟩
  cases decides <;> rfl

lemma tryClose_eq (a : StatArb F) (pops : ℕ) :
    a.tryClose pops =
      if a.closes then
        enter .flat (a.sendPair a.closingSide (otherSide a.closingSide) pops)
      else (a, []) := by
  rw [tryClose, ← Bool.not_or]
  change (if (!a.closes) = true then _ else _) = _
  cases a.closes with
  | false => rfl
  | true =>
    unfold closingSide
    by_cases hlong : a.state = .longSpread <;> simp [hlong, otherSide]

/-- An event that sends no pair. -/
lemma onBboImpl_of_none (h : a.trade e = none) (pops : ℕ) :
    a.onBboImpl e pops = ((a.observe e).2, []) := by
  rw [onBboImpl_eq]
  unfold trade at h
  split_ifs at h ⊢ with hdecides hflat
  · -- flat
    unfold tryOpen
    rw [decision, if_pos hflat] at h
    split_ifs at h ⊢
    rfl
  · -- with a position
    rw [decision, if_neg hflat] at h
    rw [tryClose_eq]
    split_ifs at h ⊢
    rfl
  · rfl

/-- An event that sends a pair. -/
lemma onBboImpl_of_some {state : ArbState} {sideA : Side} (h : a.trade e = some (state, sideA))
    (pops : ℕ) :
    a.onBboImpl e pops =
      enter state ((a.observe e).2.sendPair sideA (otherSide sideA) pops) := by
  rw [onBboImpl_eq]
  unfold trade at h
  split_ifs at h ⊢ with hdecides hflat
  · -- flat
    unfold tryOpen
    rw [decision, if_pos hflat] at h
    split_ifs at h ⊢ <;> obtain ⟨rfl, rfl⟩ := Prod.mk.inj (Option.some_inj.mp h) <;> rfl
  · -- with a position
    rw [decision, if_neg hflat] at h
    rw [tryClose_eq]
    split_ifs at h ⊢
    obtain ⟨rfl, rfl⟩ := Prod.mk.inj (Option.some_inj.mp h)
    rfl

/-- What an event leaves before it decides; the middle of the second leg is noted only when the legs
are different. -/
lemma observe_frame (a : StatArb F) (e : BBOEvent) :
    (a.observe e).2.orderQueue = a.orderQueue ∧ (a.observe e).2.state = a.state ∧
      (a.observe e).2.instrumentId = a.instrumentId ∧ (a.observe e).2.instrumentB = a.instrumentB ∧
      (a.observe e).2.orderQty = a.orderQty ∧
      (a.instrumentId = a.instrumentB → (a.observe e).2.lastMidB = a.lastMidB) := by
  unfold observe noteMid rescore
  split_ifs with hvalid hA hB
  · exact ⟨rfl, rfl, rfl, rfl, rfl, fun _ => rfl⟩
  · dsimp only
    split_ifs <;> exact ⟨rfl, rfl, rfl, rfl, rfl, fun _ => rfl⟩
  · dsimp only
    split_ifs <;> exact ⟨rfl, rfl, rfl, rfl, rfl, fun heq => absurd (hB.trans heq.symm) hA⟩
  · exact ⟨rfl, rfl, rfl, rfl, rfl, fun _ => rfl⟩

/-- There is no decision without a price of the second leg. -/
lemma lastMidB_ne_zero (h : (a.observe e).1 = true) : (a.observe e).2.lastMidB ≠ 0 := by
  unfold observe rescore at *
  split_ifs at h ⊢
  cases hnote : a.noteMid e with
  | none => simp [hnote] at h
  | some a' =>
    simp only [hnote] at h ⊢
    split_ifs at h ⊢ with hprices
    exact fun hzero => hprices (Or.inr hzero)

end StatArb

end QuantTrade
