import QuantTrade.Oms.Delivery

/-!
# Rejected events

A call of the OMS or of the state machine that returns `false` is meant to leave no trace.
`apply_fill` writes the filled quantity first and takes it back when the state machine refuses;
`on_ack` writes the id and the time stamp of the exchange first and does not take them back.  So a
rejected event leaves a trace exactly when it is an acknowledgement that says something new about
an order that does not wait for one (`rejected_iff`).
-/

namespace QuantTrade

namespace OMS

/-- What can happen to an OMS: a call of its own, a call of the state machine on the order that
`find` leads to, and a fill taken out of the queue of the tracker. -/
inductive Action where
  | call (c : Call)
  | transition (clientOrderId : ℕ) (newStatus : OrderStatus)
  | applyFill (clientOrderId : ℕ) (fillQty : ℤ)
  | popFill

/-- The OMS after an action, and what the action returns. -/
def act (s : OMS) : Action → OMS × Bool
  | .call c => (s.perform c, s.answer c)
  | .transition id newStatus => s.updateOrder id (OrderStateMachine.transition · newStatus)
  | .applyFill id fillQty => s.updateOrder id (OrderStateMachine.applyFill · fillQty)
  | .popFill => ({ s with fillTracker := s.fillTracker.popFill.2 }, true)

/-- The OMS after an action. -/
def next (s : OMS) (a : Action) : OMS :=
  (s.act a).1

/-- The order that an event names and the operation that it runs on it; a submit, a release and the
queue are no events of an order. -/
def Action.op : Action → Option (ℕ × (Order → Order × Bool))
  | .call c => c.op
  | .transition id newStatus => some (id, (OrderStateMachine.transition · newStatus))
  | .applyFill id fillQty => some (id, (OrderStateMachine.applyFill · fillQty))
  | .popFill => none

/-- If the event is rejected, the OMS stays what it is. -/
def Traceless (s : OMS) (a : Action) : Prop :=
  a.op.isSome → (s.act a).2 = false → s.next a = s

/-- The order waits for this acknowledgement, or it has the acknowledgement's id and time stamp
already. -/
def Acknowledges (ack : OrderAck) (o : Order) : Prop :=
  OrderStateMachine.legal o.status ack.status = true ∨
    (o.exchangeOrderId = ack.exchangeOrderId ∧ o.ackTsNs = ack.ackTsNs)

instance (ack : OrderAck) : DecidablePred (Acknowledges ack) :=
  fun _ => inferInstanceAs (Decidable (_ ∨ _))

/-- An acknowledgement says nothing new about an order that does not wait for it. -/
def NothingNew (s : OMS) : Action → Prop
  | .call (.onAck ack) => ∀ o ∈ s.orderAt ack.clientOrderId, Acknowledges ack o
  | _ => True

/-! ## Rejected operations -/

section Rejected

variable {s : OMS} {id : ℕ} {f : Order → Order × Bool}

/-- Writing back what is there changes nothing. -/
lemma write_deref {ptr : ℕ} {o : Order} (hderef : s.pool.deref ptr = some o) :
    s.pool.write ptr o = s.pool := by
  have hcell : s.pool.storage ptr = .object o := by
    unfold MemoryPool.deref at hderef
    cases hc : s.pool.storage ptr with
    | node next =>
      rw [hc] at hderef
      cases hderef
    | object val =>
      rw [hc, Cell.val?_object, Option.some.injEq] at hderef
      rw [hderef]
  rw [MemoryPool.write, ← hcell, Function.update_eq_self]

/-- An operation changes the OMS exactly when it changes the order. -/
lemma updateOrder_fst_eq_iff :
    (s.updateOrder id f).1 = s ↔ ∀ o ∈ s.orderAt id, (f o).1 = o := by
  cases ho : s.orderAt id with
  | none =>
    rw [updateOrder_of_none ho]
    simp
  | some o =>
    obtain ⟨ptr, hfind, hderef⟩ := find_of_orderAt ho
    rw [updateOrder_of_some hfind hderef]
    simp only [Option.mem_def, Option.some.injEq, forall_eq']
    constructor
    · intro hsame
      have hpool : s.pool.write ptr (f o).1 = s.pool := congrArg OMS.pool hsame
      rw [← hpool, MemoryPool.deref_write_self] at hderef
      exact Option.some.inj hderef
    · intro hsame
      rw [hsame, write_deref hderef]

/-- A rejected fill does not reach the tracker. -/
lemma onFill_of_rejected {fill : FillEvent} (hrejected : (s.onFill fill).2 = false) :
    (s.onFill fill).1 =
      (s.updateOrder fill.clientOrderId (OrderStateMachine.applyFill · fill.fillQty)).1 := by
  have htracker : (s.updateOrder fill.clientOrderId
      (OrderStateMachine.applyFill · fill.fillQty)).1.fillTracker = s.fillTracker :=
    fillTracker_updateOrder
  rw [onFill_eq, hrejected]
  simp only [Bool.false_eq_true, if_false, ← htracker]

/-- What a rejected event leaves behind is what its operation makes of the order. -/
lemma next_eq_self_iff {a : Action} (hop : a.op = some (id, f))
    (hrejected : (s.act a).2 = false) : s.next a = s ↔ ∀ o ∈ s.orderAt id, (f o).1 = o := by
  rw [← updateOrder_fst_eq_iff]
  cases a with
  | call c =>
    cases c with
    | submit _ _ => cases hop
    | release _ => cases hop
    | onAck ack =>
      cases hop
      rfl
    | onFill fill =>
      cases hop
      rw [next, act, perform, onFill_of_rejected hrejected]
    | onCancelAck _ =>
      cases hop
      rfl
    | markPendingCancel _ =>
      cases hop
      rfl
  | transition _ _ =>
    cases hop
    rfl
  | applyFill _ _ =>
    cases hop
    rfl
  | popFill => cases hop

/-- What an event returns is the answer of its operation on the order. -/
lemma act_snd_of_op {a : Action} (hop : a.op = some (id, f)) :
    (s.act a).2 = ((s.orderAt id).map fun o => (f o).2).getD false := by
  cases a with
  | call c => exact answer_of_op hop
  | transition _ _ =>
    cases hop
    exact updateOrder_snd
  | applyFill _ _ =>
    cases hop
    exact updateOrder_snd
  | popFill => cases hop

/-- An event leaves no trace when its operation leaves every order alone that it refuses. -/
lemma traceless_iff_of_op {a : Action} (hop : a.op = some (id, f)) :
    s.Traceless a ↔ ∀ o ∈ s.orderAt id, (f o).2 = false → (f o).1 = o := by
  have hanswer := act_snd_of_op (s := s) hop
  have hsome : a.op.isSome := by rw [hop]; rfl
  constructor
  · intro htraceless o ho hrefused
    have hrejected : (s.act a).2 = false := by
      rw [hanswer, Option.mem_def.mp ho, Option.map_some, Option.getD_some, hrefused]
    exact (next_eq_self_iff hop hrejected).mp (htraceless hsome hrejected) o ho
  · intro hkept _ hrejected
    rw [next_eq_self_iff hop hrejected]
    intro o ho
    rw [hanswer, Option.mem_def.mp ho, Option.map_some, Option.getD_some] at hrejected
    exact hkept o ho hrejected

end Rejected

/-- A refused transition leaves the order alone. -/
lemma transition_of_refused {o : Order} {newStatus : OrderStatus}
    (hrefused : (OrderStateMachine.transition o newStatus).2 = false) :
    (OrderStateMachine.transition o newStatus).1 = o := by
  rw [OrderStateMachine.transition_snd] at hrefused
  rw [OrderStateMachine.transition_of_not_legal hrefused]

/-- A refused acknowledgement leaves the order alone exactly when it repeats the id and the time
stamp that the order has. -/
lemma ackOrder_of_refused_iff (ack : OrderAck) (o : Order) :
    ((ackOrder ack o).2 = false → (ackOrder ack o).1 = o) ↔ Acknowledges ack o := by
  have hanswer : (ackOrder ack o).2 = OrderStateMachine.legal o.status ack.status := by
    rw [ackOrder, OrderStateMachine.transition_snd]
  rw [hanswer, Acknowledges]
  cases hlegal : OrderStateMachine.legal o.status ack.status with
  | true => simp
  | false =>
    have hkept : (ackOrder ack o).1 =
        { o with exchangeOrderId := ack.exchangeOrderId, ackTsNs := ack.ackTsNs } := by
      rw [ackOrder, OrderStateMachine.transition_fst]
      simp [hlegal]
    rw [hkept]
    obtain ⟨_, _, _, _, _, _, _, _, _, _, _⟩ := o
    simp [eq_comm]

/-- An event leaves no trace when rejected exactly when it is not an acknowledgement that says
something new about an order that does not wait for it. -/
lemma traceless_iff (s : OMS) (a : Action) : s.Traceless a ↔ s.NothingNew a := by
  cases a with
  | call c =>
    cases c with
    | submit _ _ => simp [Traceless, NothingNew, Action.op, Call.op]
    | release _ => simp [Traceless, NothingNew, Action.op, Call.op]
    | onAck ack =>
      rw [traceless_iff_of_op rfl]
      exact forall₂_congr fun o _ => ackOrder_of_refused_iff ack o
    | onFill fill =>
      rw [traceless_iff_of_op rfl]
      exact iff_of_true (fun _ _ => OrderStateMachine.applyFill_of_refused) trivial
    | onCancelAck _ =>
      rw [traceless_iff_of_op rfl]
      exact iff_of_true (fun _ _ => transition_of_refused) trivial
    | markPendingCancel _ =>
      rw [traceless_iff_of_op rfl]
      exact iff_of_true (fun _ _ => transition_of_refused) trivial
  | transition _ _ =>
    rw [traceless_iff_of_op rfl]
    exact iff_of_true (fun _ _ => transition_of_refused) trivial
  | applyFill _ _ =>
    rw [traceless_iff_of_op rfl]
    exact iff_of_true (fun _ _ => OrderStateMachine.applyFill_of_refused) trivial
  | popFill => simp [Traceless, NothingNew, Action.op]

/-- **Rejected events.**  Along every run, every rejected event leaves the orders, the map, the pool
and the tracker as they were exactly when no acknowledgement of the run says something new about an
order that does not wait for it. -/
theorem rejected_iff (as : List Action) :
    (∀ before a, before ++ [a] <+: as → (Transition.run next init before).Traceless a) ↔
      Transition.Admissible next NothingNew init as := by
  rw [← Transition.admissible_iff_forall_run]
  exact Transition.admissible_congr traceless_iff

/-- An order of 100 that the exchange acknowledges as 9001 and fills. -/
def filledBuy : List Action :=
  [.call (.submit { side := .buy, price := 50000, qty := 100 } 10),
    .call (.onAck { clientOrderId := 1, exchangeOrderId := 9001, ackTsNs := 20 }),
    .call (.onFill { clientOrderId := 1, fillPrice := 50000, fillQty := 100, fillTsNs := 30 })]

/-- A second acknowledgement of the same order, under another id. -/
def lateAck : OrderAck where
  clientOrderId := 1
  exchangeOrderId := 9002
  ackTsNs := 40

/-- The late acknowledgement is rejected, and the filled order now has the id 9002. -/
theorem not_traceless_lateAck :
    ¬∀ (before : List Action) (a : Action), (Transition.run next init before).Traceless a := by
  intro h
  have hsame := h filledBuy (.call (.onAck lateAck)) rfl (by decide)
  have hbefore : ((Transition.run next init filledBuy).orderAt 1).map (·.exchangeOrderId) =
      some 9001 := by decide
  have hafter : (((Transition.run next init filledBuy).next (.call (.onAck lateAck))).orderAt 1).map
      (·.exchangeOrderId) = some 9002 := by decide
  rw [hsame, hbefore] at hafter
  exact absurd hafter (by decide)

end OMS

end QuantTrade
