import QuantTrade.Library.Transition
import QuantTrade.Oms.OMS

/-!
# The life of an order in the OMS

A run of the OMS is a list of calls (`Call`) performed from the initial state.  The store invariant
holds in every state of a run, and `orderAt_perform` says once what a call can do to the table of
orders: enter a new order under the next id, change one order by an operation of the state machine,
or remove an order.

The main result `order_lifecycle` ties the status of an order to its filled quantity
(`Order.Lifecycle`) in every state of every run, and says that the filled quantity never decreases
and that a terminal order stays what it is.
-/

namespace QuantTrade

namespace OMS

/-- The calls that act on an OMS. -/
inductive Call where
  | submit (req : OrderRequest) (now : ℕ)
  | onAck (ack : OrderAck)
  | onFill (fill : FillEvent)
  | onCancelAck (clientOrderId : ℕ)
  | markPendingCancel (clientOrderId : ℕ)
  | release (clientOrderId : ℕ)

/-- The state after a call. -/
def perform (s : OMS) : Call → OMS
  | .submit req now => (s.submit req now).1
  | .onAck ack => (s.onAck ack).1
  | .onFill fill => (s.onFill fill).1
  | .onCancelAck id => (s.onCancelAck id).1
  | .markPendingCancel id => (s.markPendingCancel id).1
  | .release id => s.release id

/-- The state of a new OMS after the calls. -/
def after (calls : List Call) : OMS :=
  Transition.run perform init calls

/-- The order a call names and the operation of the state machine that it runs on it. -/
def Call.op : Call → Option (ℕ × (Order → Order × Bool))
  | .submit _ _ => none
  | .onAck ack => some (ack.clientOrderId, ackOrder ack)
  | .onFill fill => some (fill.clientOrderId, (OrderStateMachine.applyFill · fill.fillQty))
  | .onCancelAck id => some (id, (OrderStateMachine.transition · .cancelled))
  | .markPendingCancel id => some (id, (OrderStateMachine.transition · .pendingCancel))
  | .release _ => none

/-- The calls that run an operation on an order. -/
lemma Call.op_cases {c : Call} {id : ℕ} {f : Order → Order × Bool} (hop : c.op = some (id, f)) :
    (∃ ack, c = .onAck ack ∧ id = ack.clientOrderId ∧ f = ackOrder ack) ∨
    (∃ fill, c = .onFill fill ∧ id = fill.clientOrderId ∧
      f = (OrderStateMachine.applyFill · fill.fillQty)) ∨
    (c = .onCancelAck id ∧ f = (OrderStateMachine.transition · .cancelled)) ∨
    (c = .markPendingCancel id ∧ f = (OrderStateMachine.transition · .pendingCancel)) := by
  cases c with
  | submit _ _ => cases hop
  | release _ => cases hop
  | onAck ack => cases hop; exact .inl ⟨ack, rfl, rfl, rfl⟩
  | onFill fill => cases hop; exact .inr (.inl ⟨fill, rfl, rfl, rfl⟩)
  | onCancelAck _ => cases hop; exact .inr (.inr (.inl ⟨rfl, rfl⟩))
  | markPendingCancel _ => cases hop; exact .inr (.inr (.inr ⟨rfl, rfl⟩))

/-- A call that runs an operation on an order replaces that order in the table. -/
lemma orderAt_perform_of_op {s : OMS} (h : s.StoreInv) {c : Call} {id : ℕ}
    {f : Order → Order × Bool} (hop : c.op = some (id, f)) (i : ℕ) :
    (s.perform c).orderAt i =
      if i = id then (s.orderAt id).map fun o => (f o).1 else s.orderAt i := by
  obtain ⟨ack, rfl, rfl, rfl⟩ | ⟨fill, rfl, rfl, rfl⟩ | ⟨rfl, rfl⟩ | ⟨rfl, rfl⟩ :=
    Call.op_cases hop
  · exact orderAt_updateOrder h i
  · exact orderAt_onFill h fill i
  · exact orderAt_updateOrder h i
  · exact orderAt_updateOrder h i

/-- A submit changes nothing, or it enters the order of the request. -/
lemma perform_submit {s : OMS} (h : s.StoreInv) (req : OrderRequest) (now : ℕ) :
    s.perform (.submit req now) = s ∨
      ∃ ptr, s.Submitted req now (s.perform (.submit req now)) ptr := by
  rcases h.activeOrders_le.lt_or_eq with hroom | hfull
  · obtain ⟨ptr, -, hsub⟩ := submit_of_room h hroom req now
    exact .inr ⟨ptr, hsub⟩
  · exact .inl (congrArg Prod.fst (submit_of_full h hfull req now))

/-- A call that runs no operation on an order submits one or releases one. -/
lemma eq_of_op_eq_none {c : Call} (hop : c.op = none) :
    (∃ req now, c = .submit req now) ∨ ∃ id, c = .release id := by
  cases c with
  | submit req now => exact .inl ⟨req, now, rfl⟩
  | release id => exact .inr ⟨id, rfl⟩
  | onAck _ => exact absurd hop (Option.some_ne_none _)
  | onFill _ => exact absurd hop (Option.some_ne_none _)
  | onCancelAck _ => exact absurd hop (Option.some_ne_none _)
  | markPendingCancel _ => exact absurd hop (Option.some_ne_none _)

/-- Every call keeps the store consistent. -/
theorem StoreInv.perform {s : OMS} (h : s.StoreInv) (c : Call) : (s.perform c).StoreInv := by
  cases c with
  | submit req now =>
    rcases perform_submit h req now with hsame | ⟨ptr, hsub⟩
    · exact hsame.symm ▸ h
    · exact hsub.storeInv
  | onAck ack => exact h.onAck ack
  | onFill fill => exact h.onFill fill
  | onCancelAck id => exact h.onCancelAck id
  | markPendingCancel id => exact h.markPendingCancel id
  | release id => exact h.release id

theorem storeInv_after (calls : List Call) : (after calls).StoreInv :=
  Transition.invariant_run_of_step (fun _ c hs => hs.perform c) storeInv_init calls

/-- Ids are handed out in increasing order. -/
lemma nextOrderId_le_perform {s : OMS} (h : s.StoreInv) (c : Call) :
    s.nextOrderId ≤ (s.perform c).nextOrderId := by
  cases c with
  | submit req now =>
    rcases perform_submit h req now with hsame | ⟨ptr, hsub⟩
    · rw [hsame]
    · exact hsub.nextOrderId ▸ Nat.le_succ _
  | onAck ack => exact nextOrderId_updateOrder.ge
  | onFill fill => exact (nextOrderId_onFill s fill).ge
  | onCancelAck id => exact nextOrderId_updateOrder.ge
  | markPendingCancel id => exact nextOrderId_updateOrder.ge
  | release id => exact (nextOrderId_release s id).ge

/-- Where an order in the table after a call comes from: it was there before, it is the order of the
request just submitted, or it is the outcome of the operation that the call ran on it. -/
theorem orderAt_perform {s : OMS} (h : s.StoreInv) {c : Call} {id : ℕ} {o' : Order}
    (ho' : (s.perform c).orderAt id = some o') :
    s.orderAt id = some o' ∨
      (∃ req now, c = .submit req now ∧ id = s.nextOrderId ∧ o' = s.newOrder req now) ∨
      ∃ o f, s.orderAt id = some o ∧ c.op = some (id, f) ∧ o' = (f o).1 := by
  cases hop : c.op with
  | some p =>
    obtain ⟨i, f⟩ := p
    rw [orderAt_perform_of_op h hop] at ho'
    split_ifs at ho' with hi
    · subst hi
      obtain ⟨o, ho, rfl⟩ := Option.map_eq_some_iff.mp ho'
      exact Or.inr (Or.inr ⟨o, f, ho, rfl, rfl⟩)
    · exact Or.inl ho'
  | none =>
    rcases eq_of_op_eq_none hop with ⟨req, now, rfl⟩ | ⟨i, rfl⟩
    · rcases perform_submit h req now with hsame | ⟨ptr, hsub⟩
      · exact Or.inl (hsame ▸ ho')
      · rw [hsub.orderAt] at ho'
        split_ifs at ho' with hi
        · exact Or.inr (Or.inl ⟨req, now, rfl, hi, (Option.some.inj ho').symm⟩)
        · exact Or.inl ho'
    · rw [OMS.perform, orderAt_release h] at ho'
      split_ifs at ho'
      exact Or.inl ho'

/-- An order stays in the table until it is released. -/
lemma exists_orderAt_perform {s : OMS} (h : s.StoreInv) (c : Call) {id : ℕ} {o : Order}
    (ho : s.orderAt id = some o) : c = .release id ∨ ∃ o', (s.perform c).orderAt id = some o' := by
  cases hop : c.op with
  | some p =>
    obtain ⟨i, f⟩ := p
    rw [orderAt_perform_of_op h hop]
    split_ifs with hi
    · rw [← hi, ho]
      exact Or.inr ⟨_, rfl⟩
    · exact Or.inr ⟨o, ho⟩
  | none =>
    rcases eq_of_op_eq_none hop with ⟨req, now, rfl⟩ | ⟨i, rfl⟩
    · rcases perform_submit h req now with hsame | ⟨ptr, hsub⟩
      · exact Or.inr ⟨o, by rw [hsame, ho]⟩
      · have hne : id ≠ s.nextOrderId := (h.lt_nextOrderId ho).ne
        exact Or.inr ⟨o, by rw [hsub.orderAt, if_neg hne, ho]⟩
    · by_cases hi : id = i
      · exact Or.inl (by rw [hi])
      · exact Or.inr ⟨o, by rw [OMS.perform, orderAt_release h, if_neg hi, ho]⟩

end OMS

/-! ## Status and filled quantity -/

/-- The status of an order says how much of it is filled. -/
def Order.Lifecycle (o : Order) : Prop :=
  match o.status with
  | .pendingNew => o.filledQty = 0
  | .new => o.filledQty = 0
  | .rejected => o.filledQty = 0
  | .partiallyFilled => 0 < o.filledQty ∧ o.filledQty < o.qty
  | .pendingCancel => 0 ≤ o.filledQty ∧ o.filledQty < o.qty
  | .cancelled => 0 ≤ o.filledQty ∧ o.filledQty < o.qty
  | .filled => o.filledQty = o.qty

/-- How an order may change over time: fills are never taken back, and a terminal order keeps its
status and its filled quantity. -/
structure Order.Evolves (o o' : Order) : Prop where
  filledQty_le : o.filledQty ≤ o'.filledQty
  of_isTerminal : o.isTerminal = true → o'.status = o.status ∧ o'.filledQty = o.filledQty

namespace Order.Evolves

protected lemma refl (o : Order) : o.Evolves o :=
  ⟨le_rfl, fun _ => ⟨rfl, rfl⟩⟩

protected lemma trans {o o' o'' : Order} (h : o.Evolves o') (h' : o'.Evolves o'') :
    o.Evolves o'' := by
  constructor
  · exact h.filledQty_le.trans h'.filledQty_le
  · intro ht
    obtain ⟨hs, hf⟩ := h.of_isTerminal ht
    have ht' : o'.isTerminal = true := by rw [← ht, Order.isTerminal, Order.isTerminal, hs]
    obtain ⟨hs', hf'⟩ := h'.of_isTerminal ht'
    exact ⟨hs'.trans hs, hf'.trans hf⟩

end Order.Evolves

namespace OMS

/-- The calls the lifecycle is stated for: orders have a positive quantity, and an acknowledgement
says `new` or `rejected`. -/
def Call.Allowed : Call → Prop
  | .submit req _ => 0 < req.qty
  | .onAck ack => ack.status = .new ∨ ack.status = .rejected
  | _ => True

instance : DecidablePred Call.Allowed
  | .submit req _ => inferInstanceAs (Decidable (0 < req.qty))
  | .onAck ack => inferInstanceAs (Decidable (ack.status = .new ∨ ack.status = .rejected))
  | .onFill _ | .onCancelAck _ | .markPendingCancel _ | .release _ =>
    inferInstanceAs (Decidable True)

/-- An edge of the state machine other than one that reports a fill keeps status and filled quantity
in step. -/
private lemma lifecycle_transition {o : Order} {newStatus : OrderStatus} (hq : 0 < o.qty)
    (ho : o.Lifecycle) (h1 : newStatus ≠ .partiallyFilled) (h2 : newStatus ≠ .filled) :
    (OrderStateMachine.transition o newStatus).1.Lifecycle := by
  rw [OrderStateMachine.transition_fst]
  cases hs : o.status <;> cases newStatus <;>
    simp_all [Order.Lifecycle, OrderStateMachine.legal]
  omega

/-- A fill keeps status and filled quantity in step. -/
private lemma lifecycle_applyFill {o : Order} (fillQty : ℤ) (ho : o.Lifecycle) :
    (OrderStateMachine.applyFill o fillQty).1.Lifecycle := by
  rw [OrderStateMachine.applyFill_eq]
  split_ifs with h
  · obtain ⟨hpos, hacc⟩ := h
    have hnonneg : 0 ≤ o.filledQty := by
      cases hs : o.status <;> simp_all [Order.Lifecycle, OrderStateMachine.acceptsFill]
      omega
    by_cases hfull : o.qty ≤ o.filledQty + fillQty
    · simp [OrderStateMachine.filledOrder, Order.Lifecycle, hfull]
    · simp only [OrderStateMachine.filledOrder, Order.Lifecycle, if_neg hfull]
      omega
  · exact ho

/-- An edge of the state machine moves no filled quantity, and no edge leaves a terminal state. -/
private lemma evolves_transition (o : Order) (newStatus : OrderStatus) :
    o.Evolves (OrderStateMachine.transition o newStatus).1 := by
  rw [OrderStateMachine.transition_fst]
  constructor
  · exact le_rfl
  · intro ht
    simp [OrderStateMachine.legal_of_isTerminal ht]

/-- A fill only adds to the filled quantity, and a terminal order refuses it. -/
private lemma evolves_applyFill {o : Order} (fillQty : ℤ) (hq : 0 < o.qty) (ho : o.Lifecycle) :
    o.Evolves (OrderStateMachine.applyFill o fillQty).1 := by
  rw [OrderStateMachine.applyFill_eq]
  split_ifs with h
  · obtain ⟨hpos, hacc⟩ := h
    have hle : o.filledQty ≤ o.qty := by
      cases hs : o.status <;> simp_all [Order.Lifecycle, OrderStateMachine.acceptsFill] <;> omega
    constructor
    · exact le_min (by omega) hle
    · intro ht
      cases hs : o.status <;> simp_all [Order.isTerminal, OrderStateMachine.acceptsFill]
  · exact .refl o

/-- What an allowed call does to the order it names: the lifecycle goes on, and the quantity of the
order stays. -/
private lemma op_spec {c : Call} (hc : c.Allowed) {id : ℕ} {f : Order → Order × Bool}
    (hop : c.op = some (id, f)) {o : Order} (hq : 0 < o.qty) (ho : o.Lifecycle) :
    (f o).1.qty = o.qty ∧ (f o).1.Lifecycle ∧ o.Evolves (f o).1 := by
  obtain ⟨ack, rfl, rfl, rfl⟩ | ⟨fill, rfl, rfl, rfl⟩ | ⟨rfl, rfl⟩ | ⟨rfl, rfl⟩ :=
    Call.op_cases hop
  · have hne : ack.status ≠ .partiallyFilled ∧ ack.status ≠ .filled := by
      rcases hc with h | h <;> simp [h]
    -- the exchange id and the time stamp play no role for the lifecycle
    let o₁ : Order := { o with exchangeOrderId := ack.exchangeOrderId, ackTsNs := ack.ackTsNs }
    have hev : o₁.Evolves (ackOrder ack o).1 := evolves_transition o₁ ack.status
    exact ⟨by rw [ackOrder, OrderStateMachine.transition_fst],
      lifecycle_transition (o := o₁) hq ho hne.1 hne.2, ⟨hev.filledQty_le, hev.of_isTerminal⟩⟩
  · refine ⟨?_, lifecycle_applyFill _ ho, evolves_applyFill _ hq ho⟩
    simp only [OrderStateMachine.applyFill_eq]
    split <;> rfl
  · exact ⟨by rw [OrderStateMachine.transition_fst],
      lifecycle_transition hq ho (by decide) (by decide), evolves_transition o _⟩
  · exact ⟨by rw [OrderStateMachine.transition_fst],
      lifecycle_transition hq ho (by decide) (by decide), evolves_transition o _⟩

/-- Every order in the table has a positive quantity and a filled quantity that fits its status. -/
def LifecycleInv (s : OMS) : Prop :=
  ∀ id o, s.orderAt id = some o → 0 < o.qty ∧ o.Lifecycle

lemma LifecycleInv.perform {s : OMS} (h : s.StoreInv) (hs : s.LifecycleInv) {c : Call}
    (hc : c.Allowed) : (s.perform c).LifecycleInv := by
  intro id o' ho'
  rcases orderAt_perform h ho' with ho | ⟨req, now, rfl, -, rfl⟩ | ⟨o, f, ho, hop, rfl⟩
  · exact hs id o' ho
  · exact ⟨hc, rfl⟩
  · obtain ⟨hq, hl⟩ := hs id o ho
    obtain ⟨hq', hl', -⟩ := op_spec hc hop hq hl
    exact ⟨hq' ▸ hq, hl'⟩

/-- How two states of a run compare: an order of the later state whose id was already handed out in
the earlier one was in the table then, and has evolved since. -/
def Later (s s' : OMS) : Prop :=
  s.nextOrderId ≤ s'.nextOrderId ∧
    ∀ {id o'}, id < s.nextOrderId → s'.orderAt id = some o' →
      ∃ o, s.orderAt id = some o ∧ o.Evolves o'

lemma Later.trans {s s' s'' : OMS} (h : s.Later s') (h' : s'.Later s'') : s.Later s'' := by
  constructor
  · exact h.1.trans h'.1
  · intro id o'' hid ho''
    obtain ⟨o', ho', he'⟩ := h'.2 (hid.trans_le h.1) ho''
    obtain ⟨o, ho, he⟩ := h.2 hid ho'
    exact ⟨o, ho, he.trans he'⟩

lemma later_perform {s : OMS} (h : s.StoreInv) (hs : s.LifecycleInv) {c : Call} (hc : c.Allowed) :
    s.Later (s.perform c) := by
  constructor
  · exact nextOrderId_le_perform h c
  · intro id o' hid ho'
    rcases orderAt_perform h ho' with ho | ⟨req, now, -, rfl, -⟩ | ⟨o, f, ho, hop, rfl⟩
    · exact ⟨o', ho, .refl o'⟩
    · exact absurd hid (lt_irrefl _)
    · obtain ⟨hq, hl⟩ := hs id o ho
      exact ⟨o, ho, (op_spec hc hop hq hl).2.2⟩

/-- What every state of a run satisfies, and how it compares to the states after it. -/
private lemma lifecycle_run {s : OMS} (h : s.StoreInv) (hs : s.LifecycleInv) {calls : List Call}
    (hcalls : ∀ c ∈ calls, c.Allowed) :
    (Transition.run perform s calls).LifecycleInv ∧
      s.Later (Transition.run perform s calls) := by
  have hadm := Transition.admissible_of_forall perform (C := fun _ c => c.Allowed)
    (fun c hc _ => hcalls c hc) s
  have hstep : ∀ (s : OMS) c, c.Allowed → s.StoreInv ∧ s.LifecycleInv →
      (s.perform c).StoreInv ∧ (s.perform c).LifecycleInv :=
    fun s c hc hs => ⟨hs.1.perform c, LifecycleInv.perform hs.1 hs.2 hc⟩
  exact ⟨(Transition.invariant_run hstep hadm ⟨h, hs⟩).2,
    Transition.relates_run (R := Later) (fun s => ⟨le_rfl, fun _ ho => ⟨_, ho, .refl _⟩⟩)
      Later.trans hstep (fun s c hc hs => later_perform hs.1 hs.2 hc) hadm ⟨h, hs⟩⟩

/-- **Order lifecycle.**  In every state of every run of allowed calls, every entry of the map is an
order whose filled quantity fits its status.  Between two states of a run the filled quantity of an
order never decreases, and an order that was terminal in the first has the same status and filled
quantity in the second. -/
theorem order_lifecycle (calls : List Call) (hcalls : ∀ c ∈ calls, c.Allowed) :
    (∀ id ptr, (after calls).find id = some ptr →
      ∃ o, (after calls).pool.deref ptr = some o ∧ o.Lifecycle) ∧
    ∀ early later, calls = early ++ later → ∀ id o o',
      (after early).orderAt id = some o → (after calls).orderAt id = some o' →
        o.filledQty ≤ o'.filledQty ∧
          (o.isTerminal = true → o'.status = o.status ∧ o'.filledQty = o.filledQty) := by
  have hinit : init.LifecycleInv := fun id o ho => by simp at ho
  constructor
  · intro id ptr hfind
    obtain ⟨o, ho, hderef, -⟩ := (storeInv_after calls).orderAt_of_find hfind
    exact ⟨o, hderef, ((lifecycle_run storeInv_init hinit hcalls).1 id o ho).2⟩
  · rintro early later rfl id o o' ho ho'
    have hearly := (lifecycle_run storeInv_init hinit
      fun c hc => hcalls c (List.mem_append_left later hc)).1
    obtain ⟨-, hlater⟩ := (lifecycle_run (storeInv_after early) hearly
      fun c hc => hcalls c (List.mem_append_right early hc)).2
    rw [after, Transition.run_append] at ho'
    obtain ⟨o₁, ho₁, hev⟩ := hlater ((storeInv_after early).lt_nextOrderId ho) ho'
    obtain rfl : o = o₁ := Option.some.inj (ho.symm.trans ho₁)
    exact ⟨hev.filledQty_le, hev.of_isTerminal⟩

/-- A buy of 100 that is acknowledged and filled by 40 and then by 60. -/
def twoFills : List Call :=
  [.submit { instrumentId := 42, price := 10000, qty := 100 } 0,
    .onAck { clientOrderId := 1, exchangeOrderId := 9001 },
    .onFill { clientOrderId := 1, instrumentId := 42, fillPrice := 10000, fillQty := 40 },
    .onFill { clientOrderId := 1, instrumentId := 42, fillPrice := 10000, fillQty := 60 }]

theorem order_lifecycle_twoFills :
    ∃ o, (after twoFills).pool.deref 0 = some o ∧ o.Lifecycle :=
  (order_lifecycle twoFills (by decide)).1 1 0 (by decide)

end OMS

end QuantTrade
