import Mathlib.Algebra.BigOperators.Group.List.Basic
import Mathlib.Algebra.Ring.Int.Defs
import QuantTrade.Backtest.Backtester
import QuantTrade.Oms.Delivery

/-!
# The simulated exchange and the OMS

Orders go to an OMS and, when it takes them, to the simulated exchange, which numbers them alike.
Quotes are fed to the backtester, whose handlers forward the acks and the fills to the OMS.  Every
execution comes with an ack of a new order, which the OMS refuses for an order that is partially
filled, so it accepts all reports exactly when no order is executed twice (`oms_accepts_iff`).
-/

namespace QuantTrade

open Transition (run Admissible)

/-- An order with the time of the submit, or a quote. -/
inductive OmsBacktest.Action where
  | order (req : OrderRequest) (now : ℕ)
  | bbo (e : BBOEvent)
  deriving DecidableEq, Repr

/-- An OMS before a backtester, with what the OMS answered to the reports and the fills it got. -/
structure OmsBacktest where
  oms : OMS
  backtester : Backtester
  answers : List Bool := []
  fills : List FillEvent := []

/-- The sum of the fills of an order. -/
def filledOf (fills : List FillEvent) (clientOrderId : ℕ) : ℤ :=
  ((fills.filter (·.clientOrderId = clientOrderId)).map (·.fillQty)).sum

namespace OmsBacktest

/-- A new OMS and an exchange with this slippage and this exact fill ratio. -/
def init (slippageTicks ratio : ℚ) : OmsBacktest where
  oms := .init
  backtester := .init (.init slippageTicks (exactScale ratio))

/-- The calls that forward the reports, in the order of the handlers. -/
def forward (reports : BacktestReports) : List OMS.Call :=
  reports.acks.map .onAck ++ reports.fills.map .onFill

/-- An order is sent to the exchange when the OMS takes it; the reports of a quote are forwarded. -/
def step (s : OmsBacktest) : Action → OmsBacktest
  | .order req now =>
    let (oms, order) := s.oms.submit req now
    { s with
      oms := oms
      backtester := if order.isSome then
          { s.backtester with exchange := s.backtester.exchange.sendNewOrder req }
        else s.backtester }
  | .bbo e =>
    let (backtester, reports) := s.backtester.feedBbo e
    { oms := run OMS.perform s.oms (forward reports)
      backtester := backtester
      answers := s.answers ++ s.oms.answers (forward reports)
      fills := s.fills ++ reports.fills }

/-- The OMS accepted all reports, and every order is filled by the sum of its fills. -/
structure Accepted (s : OmsBacktest) : Prop where
  answers : ∀ ok ∈ s.answers, ok = true
  filled : ∀ id o, s.oms.orderAt id = some o → o.filledQty = filledOf s.fills id

/-- A fill of the order was reported before. -/
def WasFilled (s : OmsBacktest) (clientOrderId : ℕ) : Prop :=
  ∃ fill ∈ s.fills, fill.clientOrderId = clientOrderId

/-- A valid quote executes no order that was filled before. -/
def FirstFills (s : OmsBacktest) : Action → Prop
  | .order _ _ => True
  | .bbo e => e.isValidBbo = true → ∀ entry ∈ s.backtester.exchange.pendingOrders,
      s.backtester.exchange.canFill e entry.req = true →
        0 < s.backtester.exchange.fillQty entry.req → ¬s.WasFilled entry.clientOrderId

/-! ## Sums of fills -/

lemma filledOf_append (fills fills' : List FillEvent) (id : ℕ) :
    filledOf (fills ++ fills') id = filledOf fills id + filledOf fills' id := by
  rw [filledOf, List.filter_append, List.map_append, List.sum_append, filledOf, filledOf]

/-- Without a fill of the order the sum is zero. -/
lemma filledOf_eq_zero {fills : List FillEvent} {id : ℕ}
    (h : ∀ fill ∈ fills, fill.clientOrderId ≠ id) : filledOf fills id = 0 := by
  have hnone : fills.filter (·.clientOrderId = id) = [] := by
    rw [List.filter_eq_nil_iff]
    intro fill hfill
    simpa using h fill hfill
  rw [filledOf, hnone, List.map_nil, List.sum_nil]

/-- When the orders of a sweep are distinct, each is filled by its own execution. -/
lemma filledOf_map_fillOf (s : SimExchange) (bbo : BBOEvent) {entries : List PendingEntry}
    (hdistinct : (entries.map PendingEntry.clientOrderId).Nodup) {entry : PendingEntry}
    (hentry : entry ∈ entries) :
    filledOf (entries.map (s.fillOf bbo)) entry.clientOrderId = s.fillQty entry.req := by
  induction entries with
  | nil => cases hentry
  | cons first entries ih =>
    obtain ⟨hfresh, hdistinct⟩ := List.nodup_cons.mp hdistinct
    have hsplit : (first :: entries).map (s.fillOf bbo) =
        [s.fillOf bbo first] ++ entries.map (s.fillOf bbo) := rfl
    rw [hsplit, filledOf_append]
    rcases List.mem_cons.mp hentry with rfl | hentry
    · have hone : filledOf [s.fillOf bbo entry] entry.clientOrderId = s.fillQty entry.req := by
        simp [filledOf, SimExchange.fillOf]
      have hrest : filledOf (entries.map (s.fillOf bbo)) entry.clientOrderId = 0 := by
        apply filledOf_eq_zero
        intro fill hfill heq
        obtain ⟨other, hother, rfl⟩ := List.mem_map.mp hfill
        exact hfresh (List.mem_map.mpr ⟨other, hother, heq⟩)
      rw [hone, hrest, add_zero]
    · have hone : filledOf [s.fillOf bbo first] entry.clientOrderId = 0 := by
        apply filledOf_eq_zero
        intro fill hfill heq
        rw [List.mem_singleton.mp hfill] at heq
        exact hfresh (List.mem_map.mpr ⟨entry, hentry, heq.symm⟩)
      rw [hone, zero_add, ih hdistinct hentry]

/-! ## The executions of a sweep -/

/-- What is executed is no more than what is left of the order. -/
lemma fillQty_le {s : SimExchange} {ratio : ℚ} (hscaled : s.scaled = exactScale ratio)
    (hpos : 0 < ratio) (hone : ratio ≤ 1) {req : OrderRequest} (h : 0 < s.fillQty req) :
    s.fillQty req ≤ req.qty := by
  have hle : (s.fillQty req : ℚ) ≤ req.qty * ratio := by
    rw [SimExchange.fillQty, hscaled] at h ⊢
    exact truncate_le h
  have hfill : (0 : ℚ) < s.fillQty req := by exact_mod_cast h
  have hqty : (0 : ℚ) < req.qty := pos_of_mul_pos_left (hfill.trans_le hle) hpos.le
  have hbound : (req.qty : ℚ) * ratio ≤ req.qty := mul_le_of_le_one_right hqty.le hone
  exact_mod_cast hle.trans hbound

/-- The orders of a queue are distinct when their ids are. -/
def DistinctIds (entries : List PendingEntry) : Prop :=
  (entries.map PendingEntry.clientOrderId).Nodup

/-- What is left of an order has the same id. -/
lemma clientOrderId_leftover {s : SimExchange} {bbo : BBOEvent} {entry rest : PendingEntry}
    (h : s.leftover bbo entry = some rest) : rest.clientOrderId = entry.clientOrderId := by
  unfold SimExchange.leftover at h
  split_ifs at h
  · cases h
    rfl
  · cases h
    rfl

lemma DistinctIds.matched {s : SimExchange} (h : DistinctIds s.pendingOrders) (bbo : BBOEvent) :
    DistinctIds (s.matched bbo) := by
  unfold SimExchange.matched
  split_ifs
  · exact List.Nodup.sublist (List.filter_sublist.map _) h
  · exact List.nodup_nil

/-- The ids of what is left are among those of the queue, in the same order. -/
lemma DistinctIds.leftover {s : SimExchange} (h : DistinctIds s.pendingOrders) (bbo : BBOEvent) :
    DistinctIds (s.pendingOrders.filterMap (s.leftover bbo)) := by
  refine List.Nodup.sublist ?_ h
  induction s.pendingOrders with
  | nil => exact List.Sublist.slnil
  | cons entry entries ih =>
    cases hrest : s.leftover bbo entry with
    | none =>
      rw [List.filterMap_cons_none hrest]
      exact ih.cons _
    | some rest =>
      rw [List.filterMap_cons_some hrest, List.map_cons, List.map_cons,
        clientOrderId_leftover hrest]
      exact ih.cons_cons _

/-! ## The order of an execution -/

/-- The operation that the ack of an execution runs on its order. -/
def ackOp (bbo : BBOEvent) (entry : PendingEntry) : Order → Order × Bool :=
  OMS.ackOrder (SimExchange.ackOf bbo entry)

/-- The operation that the fill of an execution runs on its order. -/
def fillOp (s : SimExchange) (entry : PendingEntry) : Order → Order × Bool :=
  (OrderStateMachine.applyFill · (s.fillQty entry.req))

/-- The call that forwards the ack of an execution. -/
def ackCall (bbo : BBOEvent) (entry : PendingEntry) : OMS.Call :=
  .onAck (SimExchange.ackOf bbo entry)

/-- The call that forwards the fill of an execution. -/
def fillCall (s : SimExchange) (bbo : BBOEvent) (entry : PendingEntry) : OMS.Call :=
  .onFill (s.fillOf bbo entry)

lemma ackCall_op (bbo : BBOEvent) (entry : PendingEntry) :
    (ackCall bbo entry).op = some (entry.clientOrderId, ackOp bbo entry) := rfl

lemma fillCall_op (s : SimExchange) (bbo : BBOEvent) (entry : PendingEntry) :
    (fillCall s bbo entry).op = some (entry.clientOrderId, fillOp s entry) := rfl

/-- An ack is accepted by an order that waits for it, and refused by one that is partially filled.
-/
lemma ackOp_snd (bbo : BBOEvent) (entry : PendingEntry) (o : Order) :
    (ackOp bbo entry o).2 = OrderStateMachine.legal o.status .new :=
  OrderStateMachine.transition_snd ..

/-- The first execution of an order is accepted and filled in full. -/
lemma first_execution {s : SimExchange} {bbo : BBOEvent} {entry : PendingEntry} {o : Order}
    (hstatus : o.status = .pendingNew) (hpos : 0 < s.fillQty entry.req)
    (hle : s.fillQty entry.req ≤ o.qty - o.filledQty) :
    ∃ o', fillOp s entry (ackOp bbo entry o).1 = (o', true) ∧ o'.qty = o.qty ∧
      o'.filledQty = o.filledQty + s.fillQty entry.req ∧
      (o'.filledQty < o'.qty → o'.status = .partiallyFilled) := by
  have hack : (ackOp bbo entry o).1 =
      { o with
        exchangeOrderId := entry.exchangeOrderId
        ackTsNs := bbo.localTsNs
        status := .new } :=
    congrArg Prod.fst (OrderStateMachine.transition_of_legal (by rw [hstatus]; rfl))
  rw [hack, fillOp, OrderStateMachine.applyFill_eq, if_pos ⟨hpos, rfl⟩]
  have hsum : o.filledQty + s.fillQty entry.req ≤ o.qty := by omega
  refine ⟨_, rfl, rfl, min_eq_left hsum, ?_⟩
  intro hlt
  exact if_neg (not_le.mpr ((min_eq_left hsum).symm.trans_lt hlt))

/-! ## The invariant -/

/-- The order of an entry: what is left of it stands in the entry, and it is partially filled or has
not been acknowledged. -/
structure Waits (s : OmsBacktest) (entry : PendingEntry) (o : Order) : Prop where
  orderAt : s.oms.orderAt entry.clientOrderId = some o
  qty : entry.req.qty = o.qty - o.filledQty
  filled : s.WasFilled entry.clientOrderId → o.status = .partiallyFilled
  untouched : ¬s.WasFilled entry.clientOrderId → o.status = .pendingNew

/-- The OMS and the exchange agree, and all reports have been accepted. -/
structure Inv (ratio : ℚ) (s : OmsBacktest) : Prop where
  storeInv : s.oms.StoreInv
  scaled : s.backtester.exchange.scaled = exactScale ratio
  nextId : s.backtester.exchange.nextClientOrderId = s.oms.nextOrderId
  noAcks : s.backtester.exchange.ackQueue = []
  noFills : s.backtester.exchange.fillQueue = []
  distinct : DistinctIds s.backtester.exchange.pendingOrders
  waits : ∀ entry ∈ s.backtester.exchange.pendingOrders, ∃ o, s.Waits entry o
  accepted : s.Accepted
  ids : ∀ fill ∈ s.fills, fill.clientOrderId < s.oms.nextOrderId

lemma inv_init (slippageTicks ratio : ℚ) : (init slippageTicks ratio).Inv ratio where
  storeInv := OMS.storeInv_init
  scaled := rfl
  nextId := rfl
  noAcks := rfl
  noFills := rfl
  distinct := List.nodup_nil
  waits := by simp [init, Backtester.init, SimExchange.init]
  accepted := ⟨by simp [init], by simp [init]⟩
  ids := by simp [init]

/-- The id of a waiting order has been given out. -/
lemma Inv.lt_nextOrderId {ratio : ℚ} {s : OmsBacktest} (h : s.Inv ratio) {entry : PendingEntry}
    (hentry : entry ∈ s.backtester.exchange.pendingOrders) :
    entry.clientOrderId < s.oms.nextOrderId := by
  obtain ⟨o, ho⟩ := h.waits entry hentry
  exact h.storeInv.lt_nextOrderId ho.orderAt

/-- The next id has not been filled. -/
lemma Inv.not_wasFilled_nextOrderId {ratio : ℚ} {s : OmsBacktest} (h : s.Inv ratio) :
    ¬s.WasFilled s.oms.nextOrderId := by
  rintro ⟨fill, hfill, heq⟩
  exact (h.ids fill hfill).ne heq

/-- A new order is told from the waiting ones. -/
lemma Inv.distinct_sendNewOrder {ratio : ℚ} {s : OmsBacktest} (h : s.Inv ratio)
    (req : OrderRequest) :
    DistinctIds (s.backtester.exchange.sendNewOrder req).pendingOrders := by
  have hids : (s.backtester.exchange.sendNewOrder req).pendingOrders.map
      PendingEntry.clientOrderId =
        s.backtester.exchange.pendingOrders.map PendingEntry.clientOrderId ++
          [s.oms.nextOrderId] := by
    rw [← h.nextId]
    exact List.map_append
  rw [DistinctIds, hids, List.nodup_append]
  refine ⟨h.distinct, List.nodup_singleton _, ?_⟩
  rintro id hid _ hlast rfl
  obtain ⟨entry, hentry, rfl⟩ := List.mem_map.mp hid
  exact (h.lt_nextOrderId hentry).ne (List.mem_singleton.mp hlast)

/-- An order keeps the invariant. -/
lemma Inv.step_order {ratio : ℚ} {s : OmsBacktest} (h : s.Inv ratio) (req : OrderRequest)
    (now : ℕ) : (s.step (.order req now)).Inv ratio := by
  rcases h.storeInv.activeOrders_le.lt_or_eq with hroom | hfull
  · obtain ⟨ptr, hptr, hsub⟩ := OMS.submit_of_room h.storeInv hroom req now
    have hbacktester : (s.step (.order req now)).backtester =
        { s.backtester with exchange := s.backtester.exchange.sendNewOrder req } := by
      simp only [step, hptr, Option.isSome_some, if_true]
    constructor
    · exact hsub.storeInv
    · rw [hbacktester]
      exact h.scaled
    · rw [hbacktester]
      exact (congrArg (· + 1) h.nextId).trans hsub.nextOrderId.symm
    · rw [hbacktester]
      exact h.noAcks
    · rw [hbacktester]
      exact h.noFills
    · rw [hbacktester]
      exact h.distinct_sendNewOrder req
    · rw [hbacktester]
      intro entry hentry
      rcases List.mem_append.mp hentry with hentry | hentry
      · obtain ⟨o, ho⟩ := h.waits entry hentry
        refine ⟨o, ?_, ho.qty, ho.filled, ho.untouched⟩
        have hne := (h.lt_nextOrderId hentry).ne
        exact (hsub.orderAt _).trans ((if_neg hne).trans ho.orderAt)
      · rw [List.mem_singleton.mp hentry]
        refine ⟨s.oms.newOrder req now, ?_, ?_, ?_, ?_⟩
        · exact (hsub.orderAt _).trans (if_pos h.nextId)
        · exact (sub_zero req.qty).symm
        · intro hfilled
          exact absurd (h.nextId ▸ hfilled) h.not_wasFilled_nextOrderId
        · exact fun _ => rfl
    · refine ⟨h.accepted.answers, ?_⟩
      intro id o ho
      have homs : (s.step (.order req now)).oms = (s.oms.submit req now).1 := rfl
      rw [homs, hsub.orderAt] at ho
      split_ifs at ho with hid
      · cases ho
        subst hid
        symm
        apply filledOf_eq_zero
        exact fun fill hfill => (h.ids fill hfill).ne
      · exact h.accepted.filled id o ho
    · intro fill hfill
      exact (h.ids fill hfill).trans_le (hsub.nextOrderId ▸ Nat.le_succ _)
  · have hsame : s.step (.order req now) = s := by
      simp [step, OMS.submit_of_full h.storeInv hfull]
    rw [hsame]
    exact h

/-! ## A quote -/

/-- What a quote does: all acks are delivered, then all fills, to an order each. -/
structure Fed (s : OmsBacktest) (bbo : BBOEvent) (acked : OMS) (ackAnswers fillAnswers : List Bool)
    (s' : OmsBacktest) : Prop where
  ackDelivery : OMS.Distinct PendingEntry.clientOrderId (ackOp bbo)
    (s.backtester.exchange.matched bbo) s.oms acked ackAnswers
  fillDelivery : OMS.Distinct PendingEntry.clientOrderId (fillOp s.backtester.exchange)
    (s.backtester.exchange.matched bbo) acked s'.oms fillAnswers
  answers : s'.answers = s.answers ++ (ackAnswers ++ fillAnswers)
  fills : s'.fills =
    s.fills ++ (s.backtester.exchange.matched bbo).map (s.backtester.exchange.fillOf bbo)
  exchange : s'.backtester.exchange =
    { s.backtester.exchange with
      pendingOrders :=
        if bbo.isValidBbo then
          s.backtester.exchange.pendingOrders.filterMap (s.backtester.exchange.leftover bbo)
        else s.backtester.exchange.pendingOrders }

lemma Inv.fed {ratio : ℚ} {s : OmsBacktest} (h : s.Inv ratio) (bbo : BBOEvent) :
    ∃ acked ackAnswers fillAnswers,
      s.Fed bbo acked ackAnswers fillAnswers (s.step (.bbo bbo)) := by
  have hfeed := Backtester.feedBbo_eq h.noAcks h.noFills bbo
  have hforward : forward (s.backtester.feedBbo bbo).2 =
      (s.backtester.exchange.matched bbo).map (ackCall bbo) ++
        (s.backtester.exchange.matched bbo).map (fillCall s.backtester.exchange bbo) := by
    rw [hfeed, forward, List.map_map, List.map_map]
    rfl
  have hdistinct := h.distinct.matched bbo
  have hacks := OMS.run_distinct (ackCall_op bbo) hdistinct h.storeInv
  have hfills := OMS.run_distinct (fillCall_op s.backtester.exchange bbo) hdistinct hacks.storeInv
  rw [← Transition.run_append, ← hforward] at hfills
  refine ⟨_, _, _, hacks, hfills, ?_, ?_, ?_⟩
  · simp only [step, hforward, OMS.answers_append]
  · simp only [step, hfeed]
  · simp only [step, hfeed]

/-- What the execution of an entry does to its order. -/
structure Executed (s : OmsBacktest) (bbo : BBOEvent) (s' : OmsBacktest) (entry : PendingEntry)
    (o o' : Order) : Prop where
  before : s.Waits entry o
  after : s'.oms.orderAt entry.clientOrderId = some o'
  acked : (ackOp bbo entry o).2 = true
  accepted : (fillOp s.backtester.exchange entry (ackOp bbo entry o).1).2 = true
  qty : o'.qty = o.qty
  filledQty : o'.filledQty = o.filledQty + s.backtester.exchange.fillQty entry.req
  status : o'.filledQty < o'.qty → o'.status = .partiallyFilled

section Quote

variable {ratio : ℚ} {s s' : OmsBacktest} {bbo : BBOEvent} {acked : OMS}
  {ackAnswers fillAnswers : List Bool}

/-- A first execution goes through. -/
lemma Fed.executed (hfed : s.Fed bbo acked ackAnswers fillAnswers s') (h : s.Inv ratio)
    (hpos : 0 < ratio) (hone : ratio ≤ 1) (hfirst : s.FirstFills (.bbo bbo)) {entry : PendingEntry}
    (hentry : entry ∈ s.backtester.exchange.matched bbo) :
    ∃ o o', s.Executed bbo s' entry o o' := by
  obtain ⟨hvalid, hmem, hcan, hfill⟩ := SimExchange.mem_matched.mp hentry
  obtain ⟨o, ho⟩ := h.waits entry hmem
  have hstatus := ho.untouched (hfirst hvalid entry hmem hcan hfill)
  have hle := fillQty_le h.scaled hpos hone hfill
  rw [ho.qty] at hle
  obtain ⟨o', hexec, hqty, hfilled, hpartial⟩ := @first_execution _ bbo _ _ hstatus hfill hle
  refine ⟨o, o', ho, ?_, ?_, ?_, hqty, hfilled, hpartial⟩
  · rw [hfed.fillDelivery.orders entry hentry, hfed.ackDelivery.orders entry hentry, ho.orderAt,
      Option.map_some, Option.map_some, hexec]
  · rw [ackOp_snd, hstatus]
    rfl
  · rw [hexec]

/-- An order that is not executed stays what it is. -/
lemma Fed.orderAt_of_ne (hfed : s.Fed bbo acked ackAnswers fillAnswers s') {id : ℕ}
    (hid : ∀ entry ∈ s.backtester.exchange.matched bbo, entry.clientOrderId ≠ id) :
    s'.oms.orderAt id = s.oms.orderAt id := by
  rw [hfed.fillDelivery.others id hid, hfed.ackDelivery.others id hid]

/-- An order that is not executed gets no fill. -/
lemma Fed.wasFilled_of_ne (hfed : s.Fed bbo acked ackAnswers fillAnswers s') {id : ℕ}
    (hid : ∀ entry ∈ s.backtester.exchange.matched bbo, entry.clientOrderId ≠ id) :
    s'.WasFilled id ↔ s.WasFilled id := by
  rw [WasFilled, WasFilled, hfed.fills]
  constructor
  · rintro ⟨fill, hfill, heq⟩
    rcases List.mem_append.mp hfill with hold | hnew
    · exact ⟨fill, hold, heq⟩
    · obtain ⟨entry, hentry, rfl⟩ := List.mem_map.mp hnew
      exact absurd heq (hid entry hentry)
  · rintro ⟨fill, hfill, heq⟩
    exact ⟨fill, List.mem_append_left _ hfill, heq⟩

/-- An executed order has a fill. -/
lemma Fed.wasFilled_of_mem (hfed : s.Fed bbo acked ackAnswers fillAnswers s') {entry : PendingEntry}
    (hentry : entry ∈ s.backtester.exchange.matched bbo) : s'.WasFilled entry.clientOrderId := by
  refine ⟨s.backtester.exchange.fillOf bbo entry, ?_, rfl⟩
  rw [hfed.fills]
  exact List.mem_append_right _ (List.mem_map_of_mem hentry)

/-- An entry that goes unexecuted waits on. -/
lemma Fed.waits_of_ne (hfed : s.Fed bbo acked ackAnswers fillAnswers s') {entry : PendingEntry}
    {o : Order} (ho : s.Waits entry o)
    (hid : ∀ x ∈ s.backtester.exchange.matched bbo, x.clientOrderId ≠ entry.clientOrderId) :
    s'.Waits entry o where
  orderAt := (hfed.orderAt_of_ne hid).trans ho.orderAt
  qty := ho.qty
  filled hfilled := ho.filled ((hfed.wasFilled_of_ne hid).mp hfilled)
  untouched hfilled := ho.untouched fun h => hfilled ((hfed.wasFilled_of_ne hid).mpr h)

/-- An entry of the queue shares its id with no executed one but itself. -/
lemma Inv.ne_of_not_mem (h : s.Inv ratio) {entry : PendingEntry}
    (hmem : entry ∈ s.backtester.exchange.pendingOrders)
    (hnot : entry ∉ s.backtester.exchange.matched bbo) :
    ∀ x ∈ s.backtester.exchange.matched bbo, x.clientOrderId ≠ entry.clientOrderId := by
  intro x hx heq
  have hxmem := (SimExchange.mem_matched.mp hx).2.1
  have hsame : x = entry := List.inj_on_of_nodup_map h.distinct hxmem hmem heq
  exact hnot (hsame ▸ hx)

/-- What is left of an order waits for the rest. -/
lemma Fed.waits_leftover (hfed : s.Fed bbo acked ackAnswers fillAnswers s') (h : s.Inv ratio)
    (hpos : 0 < ratio) (hone : ratio ≤ 1) (hfirst : s.FirstFills (.bbo bbo))
    (hvalid : bbo.isValidBbo = true) {entry rest : PendingEntry}
    (hmem : entry ∈ s.backtester.exchange.pendingOrders)
    (hrest : s.backtester.exchange.leftover bbo entry = some rest) : ∃ o, s'.Waits rest o := by
  unfold SimExchange.leftover at hrest
  split_ifs at hrest with hcan hpart
  · -- the order is executed in part
    cases hrest
    obtain ⟨hexec, hlt⟩ := hpart
    have hentry : entry ∈ s.backtester.exchange.matched bbo := by
      rw [SimExchange.matched, if_pos hvalid]
      exact List.mem_filter.mpr ⟨hmem, hexec⟩
    obtain ⟨o, o', he⟩ := hfed.executed h hpos hone hfirst hentry
    have hqty := he.before.qty
    have hqty' := he.qty
    have hfilled := he.filledQty
    refine ⟨o', he.after, ?_, fun _ => he.status (by omega), fun hno => ?_⟩
    · dsimp only
      omega
    · exact absurd (hfed.wasFilled_of_mem hentry) hno
  · -- the quote does not satisfy the order
    cases hrest
    obtain ⟨o, ho⟩ := h.waits entry hmem
    refine ⟨o, hfed.waits_of_ne ho (h.ne_of_not_mem hmem ?_)⟩
    intro hentry
    exact hcan (SimExchange.mem_matched.mp hentry).2.2.1

/-- All reports of first executions are accepted. -/
lemma Fed.answers_true (hfed : s.Fed bbo acked ackAnswers fillAnswers s') (h : s.Inv ratio)
    (hpos : 0 < ratio) (hone : ratio ≤ 1) (hfirst : s.FirstFills (.bbo bbo)) :
    ∀ ok ∈ s'.answers, ok = true := by
  intro ok hok
  rw [hfed.answers, List.mem_append, List.mem_append] at hok
  rcases hok with hold | hack | hfill
  · exact h.accepted.answers ok hold
  · rw [hfed.ackDelivery.returned] at hack
    obtain ⟨entry, hentry, rfl⟩ := List.mem_map.mp hack
    obtain ⟨o, o', he⟩ := hfed.executed h hpos hone hfirst hentry
    rw [he.before.orderAt, Option.map_some, he.acked, Option.getD_some]
  · rw [hfed.fillDelivery.returned] at hfill
    obtain ⟨entry, hentry, rfl⟩ := List.mem_map.mp hfill
    obtain ⟨o, o', he⟩ := hfed.executed h hpos hone hfirst hentry
    rw [hfed.ackDelivery.orders entry hentry, he.before.orderAt, Option.map_some, Option.map_some,
      he.accepted, Option.getD_some]

/-- First executions fill the orders by the sums of their fills. -/
lemma Fed.filledQty_eq (hfed : s.Fed bbo acked ackAnswers fillAnswers s') (h : s.Inv ratio)
    (hpos : 0 < ratio) (hone : ratio ≤ 1) (hfirst : s.FirstFills (.bbo bbo)) {id : ℕ} {o : Order}
    (ho : s'.oms.orderAt id = some o) : o.filledQty = filledOf s'.fills id := by
  rw [hfed.fills, filledOf_append]
  by_cases hid : ∃ entry ∈ s.backtester.exchange.matched bbo, entry.clientOrderId = id
  · obtain ⟨entry, hentry, rfl⟩ := hid
    obtain ⟨o₀, o', he⟩ := hfed.executed h hpos hone hfirst hentry
    have hsame : o' = o := Option.some.inj (he.after.symm.trans ho)
    rw [← hsame, he.filledQty, h.accepted.filled _ _ he.before.orderAt,
      filledOf_map_fillOf _ _ (h.distinct.matched bbo) hentry]
  · have hne : ∀ entry ∈ s.backtester.exchange.matched bbo, entry.clientOrderId ≠ id :=
      fun entry hentry heq => hid ⟨entry, hentry, heq⟩
    have hnone : filledOf ((s.backtester.exchange.matched bbo).map
        (s.backtester.exchange.fillOf bbo)) id = 0 := by
      apply filledOf_eq_zero
      intro fill hfill
      obtain ⟨entry, hentry, rfl⟩ := List.mem_map.mp hfill
      exact hne entry hentry
    rw [hfed.orderAt_of_ne hne] at ho
    rw [hnone, add_zero, h.accepted.filled id o ho]

/-- The fills are those of orders of the OMS. -/
lemma Fed.lt_nextOrderId (hfed : s.Fed bbo acked ackAnswers fillAnswers s') (h : s.Inv ratio) :
    ∀ fill ∈ s'.fills, fill.clientOrderId < s'.oms.nextOrderId := by
  intro fill hfill
  rw [hfed.fillDelivery.nextOrderId, hfed.ackDelivery.nextOrderId]
  rw [hfed.fills] at hfill
  rcases List.mem_append.mp hfill with hold | hnew
  · exact h.ids fill hold
  · obtain ⟨entry, hentry, rfl⟩ := List.mem_map.mp hnew
    obtain ⟨o, ho⟩ := h.waits entry (SimExchange.mem_matched.mp hentry).2.1
    exact h.storeInv.lt_nextOrderId ho.orderAt

end Quote

/-- A quote that executes no order twice keeps the invariant. -/
lemma Inv.step_bbo {ratio : ℚ} (hpos : 0 < ratio) (hone : ratio ≤ 1) {s : OmsBacktest}
    (h : s.Inv ratio) {bbo : BBOEvent} (hfirst : s.FirstFills (.bbo bbo)) :
    (s.step (.bbo bbo)).Inv ratio := by
  obtain ⟨acked, ackAnswers, fillAnswers, hfed⟩ := h.fed bbo
  have hpending := congrArg SimExchange.pendingOrders hfed.exchange
  dsimp only at hpending
  constructor
  · exact hfed.fillDelivery.storeInv
  · rw [hfed.exchange]
    exact h.scaled
  · rw [hfed.exchange, hfed.fillDelivery.nextOrderId, hfed.ackDelivery.nextOrderId]
    exact h.nextId
  · rw [hfed.exchange]
    exact h.noAcks
  · rw [hfed.exchange]
    exact h.noFills
  · rw [hpending]
    split_ifs
    · exact h.distinct.leftover bbo
    · exact h.distinct
  · intro entry hentry
    rw [hpending] at hentry
    split_ifs at hentry with hvalid
    · obtain ⟨before, hbefore, hrest⟩ := List.mem_filterMap.mp hentry
      exact hfed.waits_leftover h hpos hone hfirst hvalid hbefore hrest
    · obtain ⟨o, ho⟩ := h.waits entry hentry
      refine ⟨o, hfed.waits_of_ne ho (h.ne_of_not_mem hentry ?_)⟩
      exact fun hmatched => hvalid (SimExchange.mem_matched.mp hmatched).1
  · exact ⟨hfed.answers_true h hpos hone hfirst, fun id o => hfed.filledQty_eq h hpos hone hfirst⟩
  · exact hfed.lt_nextOrderId h

/-- A quote that executes an order again makes the OMS refuse an ack. -/
lemma Inv.not_accepted_step {ratio : ℚ} {s : OmsBacktest} (h : s.Inv ratio) {bbo : BBOEvent}
    (hagain : ¬s.FirstFills (.bbo bbo)) : ¬(s.step (.bbo bbo)).Accepted := by
  obtain ⟨acked, ackAnswers, fillAnswers, hfed⟩ := h.fed bbo
  simp only [FirstFills, not_forall, not_not] at hagain
  obtain ⟨hvalid, entry, hmem, hcan, hpos, hfilled⟩ := hagain
  have hmatched := SimExchange.mem_matched.mpr ⟨hvalid, hmem, hcan, hpos⟩
  obtain ⟨o, ho⟩ := h.waits entry hmem
  have hrefused : (ackOp bbo entry o).2 = false := by
    rw [ackOp_snd, ho.filled hfilled]
    rfl
  intro haccepted
  have hfalse : false ∈ (s.step (.bbo bbo)).answers := by
    rw [hfed.answers, hfed.ackDelivery.returned]
    apply List.mem_append_right
    apply List.mem_append_left
    refine List.mem_map.mpr ⟨entry, hmatched, ?_⟩
    rw [ho.orderAt, Option.map_some, hrefused, Option.getD_some]
  exact Bool.false_ne_true (haccepted.answers false hfalse)

/-- **Protocol of the simulated exchange.**  For every slippage, every fill ratio up to one and
every run of orders and quotes, up to every point the OMS accepts all acks and fills and fills
every order by the sum of its fills exactly when no valid quote executes an order that was filled
before. -/
theorem oms_accepts_iff (slippageTicks : ℚ) {ratio : ℚ} (hpos : 0 < ratio) (hone : ratio ≤ 1)
    (as : List Action) :
    (∀ part, part <+: as → (run step (init slippageTicks ratio) part).Accepted) ↔
      Admissible step FirstFills (init slippageTicks ratio) as := by
  apply Transition.forall_prefix_iff_of_step (P := Inv ratio)
  · exact fun s hs => hs.accepted
  · intro s a hfirst hs
    cases a with
    | order req now => exact hs.step_order req now
    | bbo e => exact hs.step_bbo hpos hone hfirst
  · intro s a hagain hs
    cases a with
    | order req now => exact absurd trivial hagain
    | bbo e => exact hs.not_accepted_step hagain
  · exact inv_init slippageTicks ratio

/-- A limit buy of 10 at 101, and quotes of 99 to 100. -/
def buyAndQuotes (quotes : ℕ) : List Action :=
  .order { price := 101, qty := 10 } 0 :: .replicate quotes (.bbo { bidPx := 99, askPx := 100 })

theorem oms_accepts_iff_oneQuote :
    (run step (init 0 (1 / 2)) (buyAndQuotes 1)).Accepted :=
  (oms_accepts_iff 0 (by norm_num) (by norm_num) (buyAndQuotes 1)).mpr
    ⟨trivial, fun _ _ _ _ _ hfilled => List.not_mem_nil hfilled.choose_spec.1, trivial⟩
    (buyAndQuotes 1) (List.prefix_refl _)

/-- With half of the quantity at each quote the OMS refuses the ack of the second execution. -/
theorem not_oms_accepts_twoQuotes :
    ¬∀ (slippageTicks ratio : ℚ), 0 < ratio → ratio ≤ 1 → ∀ as : List Action,
      (run step (init slippageTicks ratio) as).Accepted := by
  intro hclaim
  have haccepted := hclaim 0 (1 / 2) (by norm_num) (by norm_num) (buyAndQuotes 2)
  have hrefused : false ∈ (run step (init 0 (1 / 2)) (buyAndQuotes 2)).answers := by
    decide +kernel
  exact Bool.false_ne_true (haccepted.answers false hrefused)

end OmsBacktest

end QuantTrade
