import Mathlib.Algebra.BigOperators.Group.List.Basic
import Mathlib.Algebra.Group.Nat.Even
import Mathlib.Algebra.Order.Ring.Int
import QuantTrade.Strategy.StatArb

/-!
# Trading in pairs

`StatArb` sends the two legs of a pair by two pushes whose results it does not look at, and enters
its next state whatever they are.  The orders that get into the queue are whole pairs, and the state
tells which pair is open, exactly when the queue has room for both legs at each event that sends a
pair (`whole_iff`).
-/

namespace QuantTrade

/-- How many pairs are open: bought legs of the first instrument less sold ones. -/
def ArbState.units : ArbState → ℤ
  | .flat => 0
  | .longSpread => 1
  | .shortSpread => -1

namespace StatArb

variable {F : Type}

/-- The two legs of a pair. -/
def IsPair (a : StatArb F) (reqA reqB : OrderRequest) : Prop :=
  reqA.instrumentId = a.instrumentId ∧ reqB.instrumentId = a.instrumentB ∧
    reqB.side = otherSide reqA.side ∧ reqA.qty = a.orderQty ∧ reqB.qty = a.orderQty

/-- The orders are whole pairs, one after the other. -/
def InPairs (a : StatArb F) : List OrderRequest → Prop
  | [] => True
  | [_] => False
  | reqA :: reqB :: orders => a.IsPair reqA reqB ∧ a.InPairs orders

/-- The signed quantity of the orders of an instrument. -/
def net (orders : List OrderRequest) (instrumentId : ℕ) : ℤ :=
  ((orders.filter fun req => req.instrumentId = instrumentId).map fun req =>
    req.side.signed req.qty).sum

variable {a : StatArb F} {orders : List OrderRequest}

/-- Pairs after pairs are pairs. -/
lemma InPairs.concat {reqA reqB : OrderRequest} (h : a.InPairs orders)
    (hpair : a.IsPair reqA reqB) : a.InPairs (orders ++ [reqA, reqB]) := by
  fun_induction InPairs a orders with
  | case1 => exact ⟨hpair, trivial⟩
  | case2 => exact h.elim
  | case3 reqA' reqB' orders ih => exact ⟨h.1, ih h.2⟩

lemma InPairs.even_length (h : a.InPairs orders) : Even orders.length := by
  fun_induction InPairs a orders with
  | case1 => exact Even.zero
  | case2 => exact h.elim
  | case3 reqA reqB orders ih => exact (ih h.2).add even_two

/-- Whether orders are pairs depends on the constants of the strategy only. -/
lemma inPairs_congr {a' : StatArb F} (hA : a'.instrumentId = a.instrumentId)
    (hB : a'.instrumentB = a.instrumentB) (hqty : a'.orderQty = a.orderQty) :
    a'.InPairs orders ↔ a.InPairs orders := by
  fun_induction InPairs a orders with
  | case1 => exact Iff.rfl
  | case2 => exact Iff.rfl
  | case3 reqA reqB orders ih =>
    rw [InPairs, ih, IsPair, IsPair, hA, hB, hqty]

lemma net_append (orders orders' : List OrderRequest) (instrumentId : ℕ) :
    net (orders ++ orders') instrumentId = net orders instrumentId + net orders' instrumentId := by
  rw [net, List.filter_append, List.map_append, List.sum_append]
  rfl

/-- What a pair adds to the positions of two different instruments. -/
lemma net_pair {reqA reqB : OrderRequest} (hpair : a.IsPair reqA reqB)
    (hne : a.instrumentId ≠ a.instrumentB) :
    net [reqA, reqB] a.instrumentId = reqA.side.signed 1 * a.orderQty ∧
      net [reqA, reqB] a.instrumentB = -(reqA.side.signed 1 * a.orderQty) := by
  obtain ⟨hA, hB, hside, hqtyA, hqtyB⟩ := hpair
  unfold net
  rw [← hA, ← hB] at hne ⊢
  cases hsell : reqA.side <;> simp [hne, hne.symm, hside, hsell, hqtyA, hqtyB, otherSide]

/-- The legs of a pair that is sent. -/
lemma isPair_legs (a : StatArb F) (side : Side) :
    a.IsPair (a.legA side) (a.legB (otherSide side)) :=
  ⟨rfl, rfl, rfl, rfl, rfl⟩

/-- What the two pushes of a pair get into the queue. -/
lemma sendPair_snd (a : StatArb F) (sideA sideB : Side) (pops : ℕ) :
    (a.sendPair sideA sideB pops).2 =
      (if a.orderQueue.size < 1024 then [a.legA sideA] else []) ++
        if min (a.orderQueue.size + 1) 1024 - pops < 1024 then [a.legB sideB] else [] := by
  unfold sendPair sendOrder popOrders
  simp only [SPSCQueue.push_snd, SPSCQueue.size_iterate_pop, SPSCQueue.size_push, decide_eq_true_eq]

/-- What they leave of the strategy. -/
lemma sendPair_fst (a : StatArb F) (sideA sideB : Side) (pops : ℕ) :
    ∃ queue : SPSCQueue OrderRequest 1024,
      queue.size = min (min (a.orderQueue.size + 1) 1024 - pops + 1) 1024 ∧
        (a.sendPair sideA sideB pops).1 = { a with orderQueue := queue } := by
  refine ⟨(((fun q : SPSCQueue OrderRequest 1024 => q.pop.2)^[pops]
    (a.orderQueue.push (a.legA sideA)).1).push (a.legB sideB)).1, ?_, rfl⟩
  rw [SPSCQueue.size_push, SPSCQueue.size_iterate_pop, SPSCQueue.size_push]

/-- A pair leads from the flat state to a position or from a position to the flat state, and takes
the position with it; both prices are there. -/
lemma trade_spec [Doubles F] {e : BBOEvent} {state : ArbState} {sideA : Side}
    (h : a.trade e = some (state, sideA)) :
    state.units = a.state.units + sideA.signed 1 ∧ (state = .flat ↔ a.state ≠ .flat) ∧
      (a.observe e).2.lastMidB ≠ 0 := by
  obtain ⟨-, hstate, -⟩ := a.observe_frame e
  unfold trade decision closingSide at h
  rw [hstate] at h
  split_ifs at h with hdecides hflat <;>
    obtain ⟨rfl, rfl⟩ := Prod.mk.inj (Option.some_inj.mp h) <;>
    refine ⟨?_, ?_, lastMidB_ne_zero hdecides⟩
  all_goals cases hnow : a.state <;> simp_all [ArbState.units]

/-! ## Sessions -/

/-- A run of the strategy, with what it has got into the queue. -/
structure Session (F : Type) where
  strategy : StatArb F
  /-- The orders that got into the queue, oldest first. -/
  enqueued : List OrderRequest
  /-- The pairs of which both legs did, of those that the strategy sent to open a position. -/
  opened : ℕ
  /-- And of those that it sent to close one. -/
  closed : ℕ

/-- An event, with the pops of the consumer between its two pushes, or a pop at another time. -/
inductive Action where
  | bbo (e : BBOEvent) (pops : ℕ)
  | pop
  deriving DecidableEq, Repr

namespace Session

/-- A new strategy, and nothing sent yet. -/
def start (a : StatArb F) : Session F where
  strategy := a
  enqueued := []
  opened := 0
  closed := 0

/-- The orders are whole pairs, one opening pair more than closing pairs exactly when the state is
not flat, and the positions in the two instruments are opposite and of one pair at most. -/
structure Whole (s : Session F) : Prop where
  inPairs : s.strategy.InPairs s.enqueued
  state_iff : s.strategy.state ≠ .flat ↔ s.opened = s.closed + 1
  net_eq : net s.enqueued s.strategy.instrumentId = -net s.enqueued s.strategy.instrumentB
  net_mem : net s.enqueued s.strategy.instrumentId ∈
    [0, s.strategy.orderQty, -s.strategy.orderQty]

variable [Doubles F]

/-- An action. -/
def step (s : Session F) : Action → Session F
  | .bbo e pops =>
    let result := s.strategy.onBboImpl e pops
    let pairs := if result.2.length = 2 then 1 else 0
    { strategy := result.1
      enqueued := s.enqueued ++ result.2
      opened := if s.strategy.state = .flat then s.opened + pairs else s.opened
      closed := if s.strategy.state = .flat then s.closed else s.closed + pairs }
  | .pop => { s with strategy := s.strategy.popOrders 1 }

/-- An event that sends a pair finds room for the first leg, and for the second after the pops in
between. -/
def RoomForPair (s : Session F) : Action → Prop
  | .bbo e pops =>
    s.strategy.trade e ≠ none →
      s.strategy.orderQueue.size < 1024 ∧ s.strategy.orderQueue.size + 1 - pops < 1024
  | .pop => True

/-! ## Steps -/

variable {s : Session F} {e : BBOEvent}

/-- What the invariant is about: the state tells the position. -/
structure Hedged (s : Session F) : Prop where
  inPairs : s.strategy.InPairs s.enqueued
  opened_eq : s.opened = s.closed + if s.strategy.state = .flat then 0 else 1
  netA_eq : net s.enqueued s.strategy.instrumentId =
    s.strategy.state.units * s.strategy.orderQty
  netB_eq : net s.enqueued s.strategy.instrumentB =
    -(s.strategy.state.units * s.strategy.orderQty)
  /-- Where the legs are one instrument, no price of the second is ever noted. -/
  ne : s.strategy.lastMidB ≠ 0 → s.strategy.instrumentId ≠ s.strategy.instrumentB

omit [Doubles F] in
lemma Hedged.whole (h : s.Hedged) : s.Whole where
  inPairs := h.inPairs
  state_iff := by
    rw [h.opened_eq]
    split_ifs with hflat <;> simp [hflat]
  net_eq := by rw [h.netA_eq, h.netB_eq, neg_neg]
  net_mem := by
    rw [h.netA_eq]
    cases s.strategy.state <;> simp [ArbState.units]

/-- The step of an event that sends no pair. -/
lemma step_of_none (h : s.strategy.trade e = none) (pops : ℕ) :
    s.step (.bbo e pops) = { s with strategy := (s.strategy.observe e).2 } := by
  simp [step, onBboImpl_of_none h]

/-- What observing an event leaves of the invariant. -/
lemma Hedged.observe (h : s.Hedged) (e : BBOEvent) :
    ({ s with strategy := (s.strategy.observe e).2 } : Session F).Hedged := by
  obtain ⟨-, hstate, hA, hB, hqty, hsame⟩ := s.strategy.observe_frame e
  constructor
  · exact (inPairs_congr hA hB hqty).mpr h.inPairs
  · exact hstate ▸ h.opened_eq
  · rw [hA, hstate, hqty]
    exact h.netA_eq
  · rw [hB, hstate, hqty]
    exact h.netB_eq
  · rw [hA, hB]
    intro hnoted heq
    exact h.ne (hsame heq ▸ hnoted) heq

/-- The step of an event that sends a pair. -/
lemma step_of_some {state : ArbState} {sideA : Side} (h : s.strategy.trade e = some (state, sideA))
    (pops : ℕ) :
    ∃ queue : SPSCQueue OrderRequest 1024,
      queue.size = min (min (s.strategy.orderQueue.size + 1) 1024 - pops + 1) 1024 ∧
      s.step (.bbo e pops) =
        let a := (s.strategy.observe e).2
        let sent := (a.sendPair sideA (otherSide sideA) pops).2
        let pairs := if sent.length = 2 then 1 else 0
        { strategy := { a with orderQueue := queue, state := state }
          enqueued := s.enqueued ++ sent
          opened := if s.strategy.state = .flat then s.opened + pairs else s.opened
          closed := if s.strategy.state = .flat then s.closed else s.closed + pairs } := by
  obtain ⟨hqueue, -⟩ := s.strategy.observe_frame e
  obtain ⟨queue, hsize, hsent⟩ :=
    (s.strategy.observe e).2.sendPair_fst sideA (otherSide sideA) pops
  rw [hqueue] at hsize
  refine ⟨queue, hsize, ?_⟩
  rw [step, onBboImpl_of_some h, enter, hsent]

/-- An event that finds room keeps the pairs whole. -/
lemma Hedged.step (h : s.Hedged) {action : Action} (hroom : s.RoomForPair action) :
    (s.step action).Hedged := by
  cases action with
  | pop =>
    refine ⟨?_, h.opened_eq, h.netA_eq, h.netB_eq, h.ne⟩
    refine (inPairs_congr ?_ ?_ ?_).mpr h.inPairs <;> rfl
  | bbo e pops =>
    have hnow := h.observe e
    cases htrade : s.strategy.trade e with
    | none => rwa [step_of_none htrade]
    | some pair =>
      obtain ⟨state, sideA⟩ := pair
      obtain ⟨hunits, hflat, hprice⟩ := trade_spec htrade
      obtain ⟨hqueue, hstate, -⟩ := s.strategy.observe_frame e
      obtain ⟨hfirst, hsecond⟩ := hroom (by simp [htrade])
      have hsent : ((s.strategy.observe e).2.sendPair sideA (otherSide sideA) pops).2 =
          [(s.strategy.observe e).2.legA sideA,
            (s.strategy.observe e).2.legB (otherSide sideA)] := by
        rw [sendPair_snd, hqueue, if_pos hfirst, min_eq_left (by omega), if_pos hsecond]
        rfl
      have hpair := (s.strategy.observe e).2.isPair_legs sideA
      obtain ⟨hnetA, hnetB⟩ := net_pair hpair (hnow.ne hprice)
      obtain ⟨queue, -, hstep⟩ := step_of_some htrade pops
      rw [hstep]
      dsimp only
      rw [hsent]
      constructor
      · refine (inPairs_congr ?_ ?_ ?_).mpr (hnow.inPairs.concat hpair) <;> rfl
      · have hcount := h.opened_eq
        by_cases hnot : s.strategy.state = .flat <;> simp [hnot, hflat] at hcount ⊢ <;> omega
      · dsimp only
        rw [net_append, hnow.netA_eq, hnetA, hunits, hstate, add_mul]
        rfl
      · dsimp only
        rw [net_append, hnow.netB_eq, hnetB, hunits, hstate, add_mul, neg_add]
        rfl
      · exact hnow.ne

/-- An event that does not find room leaves a single leg, or a state without its position. -/
lemma Hedged.not_whole_step (h : s.Hedged) {action : Action} (hroom : ¬s.RoomForPair action) :
    ¬(s.step action).Whole := by
  intro hwhole
  cases action with
  | pop => exact hroom trivial
  | bbo e pops =>
    obtain ⟨htrade, hfull⟩ := Classical.not_imp.mp hroom
    obtain ⟨⟨state, sideA⟩, hsome⟩ := Option.ne_none_iff_exists'.mp htrade
    obtain ⟨-, hflat, -⟩ := trade_spec hsome
    obtain ⟨hqueue, -⟩ := s.strategy.observe_frame e
    obtain ⟨queue, -, hstep⟩ := step_of_some hsome pops
    have heven := h.inPairs.even_length
    have hlength := hwhole.inPairs.even_length
    have hstate := hwhole.state_iff
    rw [hstep] at hlength hstate
    dsimp only at hlength hstate
    rw [List.length_append, Nat.even_add, iff_true_left heven] at hlength
    rw [sendPair_snd, hqueue] at hlength hstate
    by_cases hfirst : s.strategy.orderQueue.size < 1024 <;>
      by_cases hsecond : min (s.strategy.orderQueue.size + 1) 1024 - pops < 1024
    · exact hfull ⟨hfirst, by omega⟩
    · rw [if_pos hfirst, if_neg hsecond] at hlength
      exact Nat.not_even_one hlength
    · rw [if_neg hfirst, if_pos hsecond] at hlength
      exact Nat.not_even_one hlength
    · -- neither leg got into the queue
      rw [if_neg hfirst, if_neg hsecond] at hstate
      have hcount := h.opened_eq
      by_cases hnot : s.strategy.state = .flat <;> simp [hnot, hflat] at hcount hstate <;> omega

lemma hedged_start (instrumentA instrumentB : ℕ) (hedgeRatio : F) (orderQty : ℤ)
    (entryZ exitZ stopZ : F) (lookback : ℕ) :
    (start
      (init instrumentA instrumentB hedgeRatio orderQty entryZ exitZ stopZ lookback)).Hedged where
  inPairs := trivial
  opened_eq := rfl
  netA_eq := by simp [start, init, net, ArbState.units]
  netB_eq := by simp [start, init, net, ArbState.units]
  ne h := absurd rfl h

/-- **Whole pairs.**  Whatever the scores are and whenever the consumer pops: after every part of a
run, the orders that got into the queue are whole pairs, the state tells which pair is open, and the
positions of the legs are opposite, exactly when each event that sends a pair finds room for both of
its legs. -/
theorem whole_iff (instrumentA instrumentB : ℕ) (hedgeRatio : F) (orderQty : ℤ)
    (entryZ exitZ stopZ : F) (lookback : ℕ) (as : List Action) :
    let s := start
      (init instrumentA instrumentB hedgeRatio orderQty entryZ exitZ stopZ lookback)
    (∀ bs, bs <+: as → (Transition.run step s bs).Whole) ↔
      Transition.Admissible step RoomForPair s as := by
  intro s
  refine Transition.forall_prefix_iff_of_step (P := Hedged) ?_ ?_ ?_ (hedged_start ..)
  · exact fun _ h => h.whole
  · exact fun _ _ hroom h => h.step hroom
  · exact fun _ _ hroom h => h.not_whole_step hroom

/-! ## A full queue -/

/-- The best prices of an instrument around a middle. -/
def quoteAt (instrumentId : ℕ) (mid : ℤ) : BBOEvent where
  instrumentId := instrumentId
  bidPx := mid - 1
  askPx := mid + 1

/-- The statistics of no samples, and those after a spread of 9 when the window is for none. -/
def statLow : WelfordStat ℚ :=
  ⟨0, 0, 0, 0⟩

def statHigh : WelfordStat ℚ :=
  ⟨18, -162, 0, 0⟩

/-- Instruments 1 and 2 with the second at 100, and a window for no samples. -/
def windowless (state : ArbState) (stat : WelfordStat ℚ) (lastMidA : ℤ) (currentZ : ℚ)
    (queue : SPSCQueue OrderRequest 1024) : StatArb ℚ :=
  { init 1 2 1 100 2 (1 / 2) (7 / 2) 0 with
    orderQueue := queue
    lastMidA := lastMidA
    lastMidB := 100
    stat := stat
    currentZ := currentZ
    state := state }

section Windowless

variable {state state' : ArbState} {stat : WelfordStat ℚ} {lastMidA : ℤ} {currentZ : ℚ}
  {queue : SPSCQueue OrderRequest 1024} {s : Session ℚ}

/-- With the first leg at 109 the spread is 9. -/
lemma observe_windowless (h : stat.window = 0) :
    (windowless state stat lastMidA currentZ queue).observe (quoteAt 1 109) =
      (true, windowless state (stat.update 9) 109
        ((9 - (stat.update 9).mean) / (stat.update 9).stddev) queue) := by
  have hwindow : (stat.update 9).window = 0 := by
    unfold WelfordStat.update
    split_ifs <;> exact h
  have hspread : (Doubles.ofInt 109 - Doubles.ofInt 100 : ℚ) = 9 := by decide +kernel
  simp [StatArb.observe, noteMid, rescore, windowless, init, quoteAt, BBOEvent.isValidBbo,
    BBOEvent.midPrice, hwindow, hspread]

/-- The mean swings between 0 and 18, and the score between 9 and -9. -/
lemma update_statLow : statLow.update 9 = statHigh := by decide +kernel

lemma update_statHigh : statHigh.update 9 = statLow := by decide +kernel

lemma trade_statLow :
    (windowless .flat statLow lastMidA currentZ queue).trade (quoteAt 1 109) =
      some (.longSpread, .buy) := by
  have hscore : (9 - statHigh.mean) / statHigh.stddev = -9 := by decide +kernel
  have hnotHigh : ¬Doubles.lt (2 : ℚ) (-9) = true := by decide +kernel
  have hlow : Doubles.lt (-9 : ℚ) (-2) = true := by decide +kernel
  rw [trade, observe_windowless rfl, update_statLow, hscore, if_pos rfl, decision]
  exact (if_pos rfl).trans ((if_neg hnotHigh).trans (if_pos hlow))

lemma trade_statHigh :
    (windowless .longSpread statHigh lastMidA currentZ queue).trade (quoteAt 1 109) =
      some (.flat, .sell) := by
  have hscore : (9 - statLow.mean) / statLow.stddev = 9 := by decide +kernel
  have hfar : (let az : ℚ := if Doubles.lt (9 : ℚ) 0 then -9 else 9
      Doubles.lt az (1 / 2) || Doubles.lt (7 / 2) az) = true := by decide +kernel
  rw [trade, observe_windowless rfl, update_statHigh, hscore, if_pos rfl, decision]
  exact (if_neg (show ¬ArbState.longSpread = .flat by decide)).trans (if_pos hfar)

/-- A pair gets into a queue with room. -/
lemma step_windowless {sideA : Side} (hhedged : s.Hedged)
    (hs : s.strategy = windowless state stat lastMidA currentZ queue) (hwindow : stat.window = 0)
    (htrade : s.strategy.trade (quoteAt 1 109) = some (state', sideA))
    (hroom : queue.size + 2 ≤ 1024) :
    (s.step (.bbo (quoteAt 1 109) 0)).Hedged ∧
      ∃ currentZ' queue', queue'.size = queue.size + 2 ∧
        (s.step (.bbo (quoteAt 1 109) 0)).strategy =
          windowless state' (stat.update 9) 109 currentZ' queue' := by
  have hqueue : s.strategy.orderQueue = queue := by rw [hs]; rfl
  obtain ⟨queue', hsize, hstep⟩ := step_of_some htrade 0
  rw [hqueue] at hsize
  refine ⟨hhedged.step fun _ => ?_, (9 - (stat.update 9).mean) / (stat.update 9).stddev, queue',
    by omega, ?_⟩
  · rw [hqueue]
    omega
  · rw [hstep, hs, observe_windowless hwindow]
    rfl

end Windowless

/-- The session after some events at these prices: each sent a pair, and nothing was popped. -/
structure Swinging (n : ℕ) (s : Session ℚ) : Prop where
  hedged : s.Hedged
  strategy_eq : ∃ lastMidA currentZ queue, queue.size = n ∧
    s.strategy = windowless .flat statLow lastMidA currentZ queue

/-- Two more events, for a pair that opens and one that closes. -/
lemma Swinging.step_step {n : ℕ} {s : Session ℚ} (h : Swinging n s) (hroom : n + 4 ≤ 1024) :
    Swinging (n + 4)
      ((s.step (.bbo (quoteAt 1 109) 0)).step (.bbo (quoteAt 1 109) 0)) := by
  obtain ⟨hhedged, lastMidA, currentZ, queue, hsize, hs⟩ := h
  obtain ⟨hhedged', currentZ', queue', hsize', hs'⟩ :=
    step_windowless hhedged hs rfl (hs ▸ trade_statLow) (by omega)
  rw [update_statLow] at hs'
  obtain ⟨hhedged'', currentZ'', queue'', hsize'', hs''⟩ :=
    step_windowless hhedged' hs' rfl (hs' ▸ trade_statHigh) (by omega)
  rw [update_statHigh] at hs''
  exact ⟨hhedged'', 109, currentZ'', queue'', by omega, hs''⟩

/-- Some events at these prices. -/
def swings (n : ℕ) : List Action :=
  List.replicate n (.bbo (quoteAt 1 109) 0)

lemma swinging_swings (n : ℕ) (hn : 4 * n ≤ 1024) :
    Swinging (4 * n)
      (Transition.run step (start (init 1 2 1 100 2 (1 / 2) (7 / 2) 0))
        (.bbo (quoteAt 2 100) 0 :: swings (2 * n))) := by
  induction n with
  | zero =>
    -- the price of the second leg alone is not traded on
    let s : Session ℚ := start (init 1 2 1 100 2 (1 / 2) (7 / 2) 0)
    have htrade : s.strategy.trade (quoteAt 2 100) = none := by decide +kernel
    have hroom : s.RoomForPair (.bbo (quoteAt 2 100) 0) := fun hne => absurd htrade hne
    have hempty : s.strategy.orderQueue.size = 0 := by decide
    have hhedged : s.Hedged := hedged_start ..
    refine ⟨hhedged.step hroom, 0, 0, s.strategy.orderQueue, hempty, ?_⟩
    rw [swings, Nat.mul_zero, List.replicate_zero, Transition.run_cons, Transition.run_nil,
      step_of_none htrade]
    rfl
  | succ n ih =>
    have hswings : swings (2 * (n + 1)) = swings (2 * n) ++ swings 2 := by
      rw [swings, Nat.mul_succ, List.replicate_add]
      rfl
    rw [hswings, ← List.cons_append, Transition.run_append]
    exact (ih (by omega)).step_step (by omega)

/-- One order is popped from the full queue: the first leg gets in and the second does not. -/
lemma Swinging.not_whole {s : Session ℚ} (h : Swinging 1024 s) :
    ¬((s.step .pop).step (.bbo (quoteAt 1 109) 0)).Whole := by
  obtain ⟨hhedged, lastMidA, currentZ, queue, hsize, hs⟩ := h
  have hpopped :
      (s.step .pop).strategy = windowless .flat statLow lastMidA currentZ queue.pop.2 := by
    rw [step, hs]
    rfl
  have hsize' : queue.pop.2.size = 1023 := by
    have hpop := queue.size_iterate_pop 1
    rw [Function.iterate_one, hsize] at hpop
    exact hpop
  refine (@Hedged.step _ _ _ hhedged .pop trivial).not_whole_step fun hroom => ?_
  rw [RoomForPair, hpopped, trade_statLow] at hroom
  have hsecond := (hroom (Option.some_ne_none _)).2
  change queue.pop.2.size + 1 - 0 < 1024 at hsecond
  omega

/-- In a run without pops but the last the queue fills up, and a pair loses its second leg. -/
theorem not_whole_fullQueue :
    ¬∀ (F : Type) [Doubles F] (instrumentA instrumentB : ℕ) (hedgeRatio : F) (orderQty : ℤ)
      (entryZ exitZ stopZ : F) (lookback : ℕ) (as : List Action),
      (Transition.run step
        (start (init instrumentA instrumentB hedgeRatio orderQty entryZ exitZ stopZ lookback))
        as).Whole := by
  intro h
  have hwhole := h ℚ 1 2 1 100 2 (1 / 2) (7 / 2) 0
    ((.bbo (quoteAt 2 100) 0 :: swings (2 * 256)) ++ [.pop, .bbo (quoteAt 1 109) 0])
  rw [Transition.run_append] at hwhole
  exact (swinging_swings 256 (by decide)).not_whole hwhole

end Session

end StatArb

end QuantTrade
