import QuantTrade.Main.Rounds

/-!
# The risk view and the position view

The position limits count what passed the risk check, the position manager what was filled.  On the
way from the one to the other a quantity is either with the OMS thread or in a fill (`inTransit`),
and a call moves it on or loses it (`imbalance_step`).  It is lost when the OMS refuses the fill or
when the queue of the fill tracker is full; with quantities that are not negative the OMS refuses
no fill (`lost_eq_zero`).  So the two views agree when all queues are drained, as long as the
tracker's queue was never full (`netQty_eq_of_drained`).
-/

namespace QuantTrade

namespace RiskPosition

open Pipeline

/-- What a request adds to the net quantity of instrument `i`. -/
def reservedOn (i : ℕ) (req : OrderRequest) : ℤ :=
  if req.instrumentId = i then req.side.signed req.qty else 0

/-- What a fill adds to the net quantity of instrument `i`. -/
def filledOn (i : ℕ) (fill : FillEvent) : ℤ :=
  if fill.instrumentId = i then fill.side.signed fill.fillQty else 0

/-- The quantity of instrument `i` between the risk check and the position manager. -/
def inTransit (i : ℕ) (s : Pipeline) : ℤ :=
  (s.pending.map (reservedOn i)).sum + (s.fillsInFlight.map (filledOn i)).sum

/-- By how much the risk view exceeds the position view and what is in transit. -/
def imbalance (i : ℕ) (s : Pipeline) : ℤ :=
  s.risk.positionLimits.getNetQty i - s.posMgr.getNetQty i - inTransit i s

/-- The quantity of instrument `i` that a call loses: that of a fill which the OMS refuses or which
finds the queue of the tracker full. -/
def lost (i : ℕ) (s : Pipeline) : Action → ℤ
  | .gw =>
    match s.gwThread with
    | .hasFill fill _ =>
      if (s.oms.onFill fill).2 = true ∧ s.oms.fillTracker.fillQueue.contents.length ≠ 1024 then 0
      else filledOn i fill
    | _ => 0
  | _ => 0

/-- The quantity in transit, place by place. -/
private lemma inTransit_eq (i : ℕ) (s : Pipeline) :
    inTransit i s = (s.pending.map (reservedOn i)).sum + ((s.posFill.map (filledOn i)).sum +
      (s.oms.fillTracker.fillQueue.contents.map (filledOn i)).sum +
      (s.gwFill.map (filledOn i)).sum + (s.simGw.fillQueue.map (filledOn i)).sum) := by
  simp only [inTransit, fillsInFlight, List.map_append, List.sum_append]

/-- **One call.**  A call moves quantities on, or loses them. -/
theorem imbalance_step {s s' : Pipeline} {a : Action} (hs : Step s a s') {i : ℕ}
    (hi : i < maxInstruments) : imbalance i s' = imbalance i s + lost i s a := by
  simp only [imbalance, inTransit_eq]
  cases hs with
  | sendOrder _ | strategyEmpty _ _ | strategyPop _ _ _ _ | strategyPush _ _ | omsEmpty _ _ _ =>
    simp [lost, pending, gwFill, posFill]
  | omsPop reading req rest h hq => simp [lost, pending, gwFill, posFill, h]
  | omsPass reading req h hok =>
    have hnet := s.risk.getNetQty_check reading.monotonicNs req i
    simp only [hok, true_and] at hnet
    simp only [lost, pending, gwFill, posFill, h, hnet, List.map_cons, List.map_nil, List.sum_cons,
      List.sum_nil, reservedOn]
    omega
  | omsRefuse reading req h hok =>
    have hnet := s.risk.getNetQty_check reading.monotonicNs req i
    simp only [hok, Bool.false_eq_true, false_and, if_false, add_zero] at hnet
    simp [lost, pending, gwFill, posFill, h, hnet]
  | omsSubmit reading req h => simp [lost, pending, gwFill, posFill, h]
  | omsSend reading req order h =>
    have hfill : filledOn i (s.simGw.fillOf req reading.rdtscNs) = reservedOn i req := rfl
    cases order <;>
      simp [lost, pending, gwFill, posFill, h, hfill, List.map_append, List.sum_append] <;> omega
  | omsAck reading order h => simp [lost, pending, gwFill, posFill, h, OMS.onAck]
  | omsPush reading order h => simp [lost, pending, gwFill, posFill, h]
  | gwEmpty h hq => simp [lost, pending, gwFill, posFill, h]
  | gwPop cloid rest h hq => simp [lost, pending, gwFill, posFill, h]
  | gwNoFill cloid h hq => simp [lost, pending, gwFill, posFill, h]
  | gwFill cloid fill rest h hq =>
    have hfill : filledOn i { fill with clientOrderId := cloid } = filledOn i fill := rfl
    simp [lost, pending, Pipeline.gwFill, posFill, h, hq, hfill]
    omega
  | gwOnFill fill cloid h =>
    simp only [lost, pending, gwFill, posFill, h, OMS.fillTracker_onFill, List.map_cons,
      List.map_nil, List.sum_cons, List.sum_nil]
    cases hok : (s.oms.onFill fill).2 with
    | false =>
      simp only [Bool.false_eq_true, if_false, false_and]
      omega
    | true =>
      simp only [if_true, true_and, FillTracker.contents_onFill]
      by_cases hfull : s.oms.fillTracker.fillQueue.contents.length = 1024
      · rw [BoundedFifo.push_of_length_eq hfull, if_neg (not_not.mpr hfull)]
        dsimp only
        omega
      · rw [BoundedFifo.push_of_length_ne hfull, if_pos hfull, List.map_append, List.sum_append,
          List.map_singleton, List.sum_singleton]
        omega
  | gwRelease fill cloid h =>
    split_ifs <;> simp [lost, pending, gwFill, posFill, h]
  | posEmpty h hq => simp [lost, pending, gwFill, posFill, h, hq]
  | posPop fill rest h hq =>
    simp [lost, pending, gwFill, posFill, h, hq]
  | posUpdate fill h =>
    have hnet := s.posMgr.getNetQty_onFill fill hi
    simp only [lost, pending, gwFill, posFill, h, hnet, List.map_cons, List.map_nil, List.sum_cons,
      List.sum_nil, filledOn]
    omega
  | posDone fill h => simp [lost, pending, gwFill, posFill, h]

/-! ## When nothing is lost -/

/-- The requests between the strategy and the gateway. -/
def requests (s : Pipeline) : List OrderRequest :=
  s.orderQueue.contents ++
  (match s.strategyThread with
    | .popped req => [req]
    | .idle => []) ++
  s.stratToOmsQueue.contents ++
  (match s.omsThread with
    | .popped req => [req]
    | _ => []) ++
  s.pending

/-- No quantity on the way to the OMS is negative. -/
structure NonNeg (s : Pipeline) : Prop where
  requests : ∀ req ∈ requests s, 0 ≤ req.qty
  fills : ∀ fill ∈ s.gwFill ++ s.simGw.fillQueue, 0 ≤ fill.fillQty

/-- Quantities are not negative, and a fill that is handed to the OMS finds room in the queue of the
tracker. -/
def Lossless (s : Pipeline) : Action → Prop
  | .sendOrder req => 0 ≤ req.qty
  | .gw => s.gwFill ≠ [] → s.oms.fillTracker.fillQueue.contents.length < 1024
  | _ => True

/-- A call passes on the requests it finds; a new one comes from the strategy. -/
lemma requests_step {s s' : Pipeline} {a : Action} (hs : Step s a s') {r : OrderRequest}
    (hr : r ∈ requests s') : r ∈ requests s ∨ a = .sendOrder r := by
  cases hs with
  | sendOrder req =>
    simp only [requests, pending, SPSCQueue.contents_push, List.append_assoc] at hr ⊢
    rcases List.mem_append.mp hr with hr | hr
    · rcases BoundedFifo.mem_of_mem_push hr with hr | rfl
      · exact Or.inl (List.mem_append_left _ hr)
      · exact Or.inr rfl
    · exact Or.inl (List.mem_append_right _ hr)
  | strategyPush req h =>
    simp only [requests, pending, h, SPSCQueue.contents_push, List.mem_append] at hr ⊢
    rcases hr with (((hr | hr) | hr) | hr) | hr
    · simp [hr]
    · simp at hr
    · rcases BoundedFifo.mem_of_mem_push hr with hr | rfl <;> simp [hr]
    · simp [hr]
    · simp [hr]
  | omsSend reading req order h =>
    left
    cases order <;> simp_all [requests, pending] <;> tauto
  | strategyPop req rest h hq =>
    left
    simp only [requests, pending, h, hq, SPSCQueue.contents_pop, List.tail_cons,
      List.append_nil, List.mem_append, List.mem_cons, List.not_mem_nil, or_false] at hr ⊢
    tauto
  | omsPop reading req rest h hq =>
    left
    simp only [requests, pending, h, hq, SPSCQueue.contents_pop, List.tail_cons,
      List.append_nil, List.mem_append, List.mem_cons, List.not_mem_nil, or_false] at hr ⊢
    tauto
  | omsRefuse reading req h hok =>
    left
    simp only [requests, pending, h, List.append_nil, List.mem_append, List.mem_cons,
      List.not_mem_nil, or_false] at hr ⊢
    tauto
  | _ =>
    left
    simp_all [requests, pending]

/-- A call passes on the fills it finds; a new one is for a pending request. -/
private lemma fills_step {s s' : Pipeline} {a : Action} (hs : Step s a s') {f : FillEvent}
    (hf : f ∈ s'.gwFill ++ s'.simGw.fillQueue) :
    (∃ f' ∈ s.gwFill ++ s.simGw.fillQueue, f.fillQty = f'.fillQty) ∨
      ∃ req ∈ s.pending, f.fillQty = req.qty := by
  cases hs with
  | omsSend reading req order h =>
    rw [← List.append_assoc] at hf
    rcases List.mem_append.mp hf with hf | hf
    · exact Or.inl ⟨f, hf, rfl⟩
    · rw [List.mem_singleton.mp hf]
      exact Or.inr ⟨req, by simp [pending, h], rfl⟩
  | gwFill cloid fill rest h hq =>
    left
    rcases List.mem_append.mp hf with hf | hf
    · rw [List.mem_singleton.mp hf]
      exact ⟨fill, by simp [hq], rfl⟩
    · exact ⟨f, by simp [hq, hf], rfl⟩
  | gwNoFill cloid h hq => simp [gwFill, hq] at hf
  | gwOnFill fill cloid h =>
    exact Or.inl ⟨f, List.mem_append_right _ (by simpa [gwFill] using hf), rfl⟩
  | gwRelease fill cloid h =>
    exact Or.inl ⟨f, List.mem_append_right _ (by simpa [gwFill] using hf), rfl⟩
  | gwPop cloid rest h hq =>
    exact Or.inl ⟨f, List.mem_append_right _ (by simpa [gwFill] using hf), rfl⟩
  | _ => exact Or.inl ⟨f, hf, rfl⟩

/-- A call passes on the requests and fills it finds, and nothing else. -/
lemma NonNeg.step {s s' : Pipeline} {a : Action} (hs : Step s a s') (ha : Lossless s a)
    (h : NonNeg s) : NonNeg s' := by
  constructor
  · intro r hr
    rcases requests_step hs hr with hr | rfl
    · exact h.requests r hr
    · exact ha
  · intro f hf
    rcases fills_step hs hf with ⟨f', hf', heq⟩ | ⟨req, hreq, heq⟩
    · rw [heq]
      exact h.fills f' hf'
    · rw [heq]
      exact h.requests req (List.mem_append_right _ hreq)

/-- The OMS accepts a fill for an order that waits for it. -/
lemma onFill_of_awaits {oms : OMS} {fill : FillEvent} (h : Awaits oms (fill.clientOrderId, .new))
    (hpos : 0 < fill.fillQty) : (oms.onFill fill).2 = true := by
  obtain ⟨o, ho, hnew⟩ := h
  have hacc : (OrderStateMachine.applyFill o fill.fillQty).2 = true := by
    rw [OrderStateMachine.applyFill_snd_eq_true_iff]
    exact ⟨hpos, by simp [OrderStateMachine.acceptsFill, hnew]⟩
  rw [OMS.onFill_snd, ho, Option.map_some, hacc]
  rfl

/-- With quantities that are not negative the OMS accepts every fill, apart from empty ones. -/
lemma lost_eq_zero {s : Pipeline} (hids : s.IdsInv) (hnonneg : NonNeg s) {a : Action}
    (ha : Lossless s a) (i : ℕ) : lost i s a = 0 := by
  cases a with
  | gw =>
    cases hgw : s.gwThread with
    | hasFill fill cloid =>
      have hroom : s.oms.fillTracker.fillQueue.contents.length < 1024 := ha (by simp [gwFill, hgw])
      have hawaits := hids.awaits (fill.clientOrderId, .new) (by
        simp [awaited, gwAwaited, hgw, hids.addressed fill cloid hgw])
      rcases (hnonneg.fills fill (by simp [gwFill, hgw])).eq_or_lt with hzero | hpos
      · simp only [lost, hgw, filledOn, ← hzero]
        cases fill.side <;> simp
      · simp only [lost, hgw]
        exact if_pos ⟨onFill_of_awaits hawaits hpos, hroom.ne⟩
    | _ => simp [lost, hgw]
  | _ => rfl

/-- **The two views agree.**  In every run in which no request has a negative quantity and every
fill finds room in the queue of the tracker, whenever all queues are empty and no thread is in the
middle of an iteration, the position limits and the position manager have the same net quantity for
every instrument. -/
theorem netQty_eq_of_drained (cfg : Config) (nowNs : ℤ) (as : List Action)
    (has : Transition.Admissible step Lossless (.init cfg nowNs) as)
    (hdrained : (Transition.run step (.init cfg nowNs) as).Drained) (id : ℕ) :
    (Transition.run step (.init cfg nowNs) as).risk.positionLimits.getNetQty id =
      (Transition.run step (.init cfg nowNs) as).posMgr.getNetQty id := by
  by_cases hid : id < maxInstruments
  · have hrun := (Observed.invariant_run (o := Observed.init cfg nowNs)
      (P := fun o => o.sys.IdsInv ∧ NonNeg o.sys ∧ imbalance id o.sys = 0) ?_
      (wired_init cfg nowNs) ?_ has).2.2.2
    · have hsys : (Transition.run Observed.step (.init cfg nowNs) as).sys =
          Transition.run step (.init cfg nowNs) as := Transition.proj_run Observed.observe_sys _ _
      rw [hsys] at hrun
      obtain ⟨⟨-, homs, hgw, hpos⟩, -, -, -, hsim, htracker⟩ := hdrained
      simp only [imbalance, inTransit, fillsInFlight, pending, posFill, gwFill, homs, hgw, hpos,
        hsim, htracker, List.append_nil, List.map_nil, List.sum_nil] at hrun
      omega
    · rintro s j a s' hs ha - ⟨hids, hnonneg, hzero⟩
      refine ⟨hids.step hs, hnonneg.step hs ha, ?_⟩
      dsimp only at hzero ⊢
      rw [imbalance_step hs hid, hzero, lost_eq_zero hids hnonneg ha, add_zero]
    · refine ⟨idsInv_init cfg nowNs, ⟨?_, ?_⟩, ?_⟩
      · simp [Observed.init, Pipeline.init, requests, pending]
      · simp [Observed.init, Pipeline.init, gwFill, SimGateway.init]
      · simp [Observed.init, Pipeline.init, imbalance, inTransit, fillsInFlight, pending, posFill,
          gwFill, SimGateway.init, OMS.init, FillTracker.init, PositionManager.init,
          PositionManager.getNetQty]
  · rw [PositionLimits.getNetQty, if_pos (by omega), PositionManager.getNetQty, if_pos (by omega)]

instance (s : Pipeline) : DecidablePred (Lossless s)
  | .sendOrder _ => inferInstanceAs (Decidable (_ ≤ _))
  | .gw => inferInstanceAs (Decidable (_ ≠ _ → _))
  | .strategy | .oms _ | .pos => .isTrue trivial

instance (s : Pipeline) : Decidable s.Idle :=
  inferInstanceAs (Decidable (_ ∧ _))

instance (s : Pipeline) : Decidable s.Drained :=
  inferInstanceAs (Decidable (_ ∧ _))

/-- Two requests that overlap leave two units on both sides. -/
theorem netQty_eq_twoRequests :
    (Transition.run step (.init wideLimits 0) twoRequests).posMgr.getNetQty 42 = 2 ∧
      (Transition.run step (.init wideLimits 0) twoRequests).risk.positionLimits.getNetQty 42 =
        (Transition.run step (.init wideLimits 0) twoRequests).posMgr.getNetQty 42 :=
  ⟨by decide +kernel,
    netQty_eq_of_drained wideLimits 0 twoRequests (by decide +kernel) (by decide +kernel) 42⟩

/-! ## When the queue of the tracker is full -/

/-- `n` buys one after the other are sent and filled, and the position thread does not run. -/
def filledBuys (n : ℕ) : List Action :=
  (List.range n).flatMap fun k => requestRound unitBuy (readingAt k) ++ gwRound

/-- The position thread books `n` fills. -/
def bookings (n : ℕ) : List Action :=
  (List.replicate n posRound).flatten

/-- The state after `k` buys: the queue of the tracker holds their fills up to its capacity, and
none is booked. -/
private structure Unbooked (k : ℕ) (s : Pipeline) : Prop where
  waiting : s.Waiting
  activeOrders : s.oms.activeOrders ≤ k
  gwThread : s.gwThread = .idle
  posThread : s.posThread = .idle
  cloids : s.omsToGwCloid.contents = []
  fillQueue : s.simGw.fillQueue = []
  length : s.oms.fillTracker.fillQueue.contents.length = min k 1024
  units : ∀ fill ∈ s.oms.fillTracker.fillQueue.contents, filledOn 42 fill = 1
  posMgr : s.posMgr = .init

/-- A fill that is reported for an order that waits for it goes to the tracker, if there is room. -/
private lemma contents_reported {oms : OMS} (fill : FillEvent) (cloid : ℕ)
    (h : Awaits oms (fill.clientOrderId, .new)) (hpos : 0 < fill.fillQty) :
    ((oms.onFill fill).1.release cloid).fillTracker.fillQueue.contents =
      (BoundedFifo.push 1024 oms.fillTracker.fillQueue.contents fill).1 := by
  rw [OMS.fillTracker_release, OMS.fillTracker_onFill, if_pos (onFill_of_awaits h hpos),
    FillTracker.contents_onFill]

/-- A buy that is sent and filled adds its fill to the queue of the tracker, if there is room. -/
private lemma Unbooked.round {cfg : Config} {k n : ℕ} {s : Pipeline} (h : Unbooked k s)
    (hrisk : Admitting cfg k s.risk) (hlets : Lets cfg n) (hk : k < n) (hpool : k < poolSize)
    (reading : Reading) :
    Unbooked (k + 1) (Transition.run step s (requestRound unitBuy reading ++ gwRound)) ∧
      Admitting cfg (k + 1)
        (Transition.run step s (requestRound unitBuy reading ++ gwRound)).risk := by
  obtain ⟨hbought, hrisk'⟩ := run_unitBuy h.waiting hrisk hlets hk
    (h.activeOrders.trans_lt hpool) reading
  rw [Transition.run_append]
  generalize Transition.run step s (requestRound unitBuy reading) = s' at hbought hrisk'
  obtain ⟨hwaiting, hactive, htracker, hfill, ⟨cloid, hcloid⟩, hposMgr, hgw, hpos⟩ := hbought
  have hcloid' : s'.omsToGwCloid.contents = [cloid] := by
    rw [hcloid, h.cloids]
    rfl
  rw [h.fillQueue, List.nil_append] at hfill
  have hinv := idsInv_run hwaiting.wired hwaiting.ids gwRound
  have hrun := run_gwRound (hgw.trans h.gwThread) hcloid' hfill
  -- the fill as it is reported to the OMS
  have hawaits : Awaits s'.oms (cloid, .new) :=
    hwaiting.ids.awaits _ (by simp [awaited, hcloid'])
  have hcontents := contents_reported
    { s.simGw.fillOf unitBuy reading.rdtscNs with clientOrderId := cloid } cloid hawaits Int.one_pos
  rw [htracker] at hcontents
  have hcap : s.oms.fillTracker.fillQueue.contents.length ≤ 1024 := by
    rw [h.length]
    exact min_le_right _ _
  rw [hrun] at hinv ⊢
  refine ⟨⟨⟨hinv.1, hinv.2, hwaiting.strategyThread, hwaiting.omsThread, hwaiting.orderQueue,
    hwaiting.stratToOmsQueue⟩, ?_, hgw.trans h.gwThread, hpos.trans h.posThread, ?_, rfl, ?_, ?_,
    hposMgr.trans h.posMgr⟩, hrisk'⟩
  · refine (OMS.activeOrders_release_le _ _).trans ?_
    rw [OMS.activeOrders_onFill, hactive]
    exact Nat.succ_le_succ h.activeOrders
  · simp [hcloid']
  · refine (congrArg List.length hcontents).trans ?_
    rw [BoundedFifo.length_push hcap, h.length]
    omega
  · intro f hf
    rcases BoundedFifo.mem_of_mem_push (hcontents ▸ hf) with hf | rfl
    · exact h.units f hf
    · rfl

private lemma run_filledBuys {cfg : Config} {n : ℕ} (hlets : Lets cfg n) {k : ℕ} (hk : k ≤ n)
    (hpool : k ≤ poolSize) (nowNs : ℤ) :
    Unbooked k (Transition.run step (.init cfg nowNs) (filledBuys k)) ∧
      Admitting cfg k (Transition.run step (.init cfg nowNs) (filledBuys k)).risk := by
  induction k with
  | zero =>
    refine ⟨⟨waiting_init cfg nowNs, Nat.le_refl _, rfl, rfl, ?_, rfl, ?_, ?_, rfl⟩,
      admitting_init cfg nowNs⟩
    · simp [filledBuys, Pipeline.init]
    · simp [filledBuys, Pipeline.init, OMS.init, FillTracker.init]
    · simp [filledBuys, Pipeline.init, OMS.init, FillTracker.init]
  | succ k ih =>
    obtain ⟨hunbooked, hrisk⟩ := ih (by omega) (by omega)
    have hsplit : filledBuys (k + 1) =
        filledBuys k ++ (requestRound unitBuy (readingAt k) ++ gwRound) := by
      simp [filledBuys, List.range_succ]
    rw [hsplit, Transition.run_append]
    exact hunbooked.round hrisk hlets (by omega) (by omega) (readingAt k)

/-- The position thread books the fills in the queue of the tracker and touches nothing else. -/
private lemma run_bookings {i : ℕ} (hi : i < maxInstruments) {fills : List FillEvent} {s : Pipeline}
    (hpos : s.posThread = .idle) (hfills : s.oms.fillTracker.fillQueue.contents = fills) :
    ∃ tracker posMgr,
      Transition.run step s (bookings fills.length) =
        { s with oms := { s.oms with fillTracker := tracker }, posMgr := posMgr } ∧
      tracker.fillQueue.contents = [] ∧
      posMgr.getNetQty i = s.posMgr.getNetQty i + (fills.map (filledOn i)).sum := by
  induction fills generalizing s with
  | nil => exact ⟨s.oms.fillTracker, s.posMgr, rfl, hfills, by simp⟩
  | cons fill fills ih =>
    have hround := run_posRound hpos hfills
    obtain ⟨tracker, posMgr, hrun, hempty, hnet⟩ := ih (s := Transition.run step s posRound)
      (by rw [hround]; exact hpos) (by rw [hround]; simp [hfills])
    refine ⟨tracker, posMgr, ?_, hempty, ?_⟩
    · have hsplit : bookings (fill :: fills).length = posRound ++ bookings fills.length := rfl
      rw [hsplit, Transition.run_append, hrun, hround]
    · rw [hnet, hround]
      dsimp only
      rw [s.posMgr.getNetQty_onFill fill hi, List.map_cons, List.sum_cons, filledOn]
      omega

/-- Once the fills in the queue of the tracker are booked everything is drained, and the position
manager has no more than these. -/
private lemma Unbooked.drained {k : ℕ} {s : Pipeline} (h : Unbooked k s) :
    (Transition.run step s (bookings (min k 1024))).Drained ∧
      (Transition.run step s (bookings (min k 1024))).risk = s.risk ∧
      (Transition.run step s (bookings (min k 1024))).posMgr.getNetQty 42 = (min k 1024 : ℕ) := by
  obtain ⟨tracker, posMgr, hrun, hempty, hnet⟩ := run_bookings (i := 42) (by decide) h.posThread rfl
  rw [h.length] at hrun
  rw [hrun]
  refine ⟨⟨⟨h.waiting.strategyThread, h.waiting.omsThread, h.gwThread, h.posThread⟩,
    h.waiting.orderQueue, h.waiting.stratToOmsQueue, h.cloids, h.fillQueue, hempty⟩, rfl, ?_⟩
  rw [hnet, h.posMgr, List.map_congr_left h.units, List.map_const', List.sum_replicate, h.length,
    nsmul_eq_mul, mul_one]
  simp [PositionManager.getNetQty, PositionManager.init]

/-- After 1025 fills that the position thread books too late, and after a buy of -1, all queues are
empty and the two views differ. -/
theorem not_netQty_eq_stalled :
    ((Transition.run step (.init wideLimits 0) (filledBuys 1025 ++ bookings 1024)).Drained ∧
      (Transition.run step (.init wideLimits 0)
        (filledBuys 1025 ++ bookings 1024)).risk.positionLimits.getNetQty 42 = 1025 ∧
      (Transition.run step (.init wideLimits 0)
        (filledBuys 1025 ++ bookings 1024)).posMgr.getNetQty 42 = 1024) ∧
    ((Transition.run step (.init wideLimits 0) (roundTrip { unitBuy with qty := -1 })).Drained ∧
      (Transition.run step (.init wideLimits 0)
        (roundTrip { unitBuy with qty := -1 })).risk.positionLimits.getNetQty 42 = -1 ∧
      (Transition.run step (.init wideLimits 0)
        (roundTrip { unitBuy with qty := -1 })).posMgr.getNetQty 42 = 0) := by
  constructor
  · have hlets : Lets wideLimits 2000 := by decide
    obtain ⟨hunbooked, hrisk⟩ := run_filledBuys hlets (k := 1025) (by decide) (by decide) 0
    obtain ⟨hdrained, hsame, hbooked⟩ := hunbooked.drained
    have hmin : min 1025 1024 = 1024 := by decide
    rw [hmin, ← Transition.run_append] at hdrained hsame hbooked
    exact ⟨hdrained, by rw [hsame, hrisk.netQty]; rfl, hbooked⟩
  · decide +kernel

end RiskPosition

end QuantTrade
