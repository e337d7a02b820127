import QuantTrade.Oms.Lifecycle

/-!
# Agreement of the OMS with the exchange

The exchange keeps its own account of an order (`Life`): it acknowledges the order, executes parts
of it and at last has executed all of it or cancels the rest.  Its events reach the OMS in order,
and in between the client may mark the order as pending cancel.  The OMS agrees with the exchange
after every event exactly when the life is `Orderly`: while the mark stands nothing but the
execution that completes the order is reported, and only a marked order is cancelled
(`agrees_iff_orderly`).  These are the edges that the transition graph of the order state machine
leaves out.
-/

namespace QuantTrade

namespace ExchangeAgreement

/-- Where an order stands at the exchange. -/
inductive Phase where
  | unacknowledged
  | working
  | filled
  | cancelled
  deriving DecidableEq, Repr

/-- An order as the exchange sees it, and whether the client has marked it since it is working. -/
structure Life where
  qty : ℤ
  executed : ℤ
  phase : Phase
  marked : Bool
  deriving DecidableEq, Repr

/-- What happens to the order: an event of the exchange, or the mark of the client. -/
inductive Event where
  | acknowledge (ack : OrderAck)
  | execute (fill : FillEvent)
  | cancel
  | mark

namespace Life

/-- An order that was just sent. -/
def submitted (qty : ℤ) : Life where
  qty := qty
  executed := 0
  phase := .unacknowledged
  marked := false

/-- What the exchange may do next: acknowledge the order first, then execute no more than is left
until it is filled, or cancel it.  The client may mark the order at any point. -/
def Allowed (x : Life) : Event → Prop
  | .acknowledge _ => x.phase = .unacknowledged
  | .execute fill =>
    x.phase = .working ∧ 0 < fill.fillQty ∧ x.executed + fill.fillQty ≤ x.qty
  | .cancel => x.phase = .working
  | .mark => True

/-- The life after an event. -/
def step (x : Life) : Event → Life
  | .acknowledge _ => { x with phase := .working }
  | .execute fill =>
    { x with
      executed := x.executed + fill.fillQty
      phase := if x.executed + fill.fillQty = x.qty then .filled else x.phase }
  | .cancel => { x with phase := .cancelled }
  | .mark => { x with marked := x.marked || x.phase == .working }

/-- While the mark stands, an execution completes the order; and only a marked order is
cancelled. -/
def Orderly (x : Life) : Event → Prop
  | .execute fill => x.marked = true → x.executed + fill.fillQty = x.qty
  | .cancel => x.marked = true
  | _ => True

instance (x : Life) : DecidablePred x.Allowed
  | .acknowledge _ => inferInstanceAs (Decidable (x.phase = .unacknowledged))
  | .execute fill => inferInstanceAs
      (Decidable (x.phase = .working ∧ 0 < fill.fillQty ∧ x.executed + fill.fillQty ≤ x.qty))
  | .cancel => inferInstanceAs (Decidable (x.phase = .working))
  | .mark => inferInstanceAs (Decidable True)

instance (x : Life) : DecidablePred x.Orderly
  | .execute fill => inferInstanceAs
      (Decidable (x.marked = true → x.executed + fill.fillQty = x.qty))
  | .cancel => inferInstanceAs (Decidable (x.marked = true))
  | .acknowledge _ | .mark => inferInstanceAs (Decidable True)

end Life

/-- The call that delivers an event about the order `id` to the OMS. -/
def Event.call (id : ℕ) : Event → OMS.Call
  | .acknowledge ack => .onAck { ack with clientOrderId := id, status := .new }
  | .execute fill => .onFill { fill with clientOrderId := id }
  | .cancel => .onCancelAck id
  | .mark => .markPendingCancel id

/-- The operation that the delivery of an event runs on the order. -/
def Event.onOrder (id : ℕ) : Event → Order → Order × Bool
  | .acknowledge ack => OMS.ackOrder { ack with clientOrderId := id, status := .new }
  | .execute fill => (OrderStateMachine.applyFill · fill.fillQty)
  | .cancel => (OrderStateMachine.transition · .cancelled)
  | .mark => (OrderStateMachine.transition · .pendingCancel)

lemma Event.call_op (id : ℕ) (e : Event) : (e.call id).op = some (id, e.onOrder id) := by
  cases e <;> rfl

/-- The exchange and the OMS, with an event that reaches both. -/
def deliver (id : ℕ) (d : Life × OMS) (e : Event) : Life × OMS :=
  (d.1.step e, d.2.perform (e.call id))

/-- The OMS has the filled quantity of the exchange, and the status of an order that is closed. -/
def Agrees (id : ℕ) (d : Life × OMS) : Prop :=
  ∃ o ∈ d.2.orderAt id, o.filledQty = d.1.executed ∧
    (d.1.phase = .filled → o.status = .filled) ∧ (d.1.phase = .cancelled → o.status = .cancelled)

instance (id : ℕ) (d : Life × OMS) : Decidable (Agrees id d) :=
  inferInstanceAs (Decidable (∃ o ∈ d.2.orderAt id, o.filledQty = d.1.executed ∧ _))

/-! ## The simulation relation -/

/-- The order of the OMS in each phase of an orderly life. -/
structure Matches (x : Life) (o : Order) : Prop where
  qty : o.qty = x.qty
  filledQty : o.filledQty = x.executed
  status : match x.phase with
    | .unacknowledged => o.status = .pendingNew ∧ x.marked = false ∧ x.executed < x.qty
    | .working => x.executed < x.qty ∧
      if x.marked then o.status = .pendingCancel else o.status = .new ∨ o.status = .partiallyFilled
    | .filled => o.status = .filled
    | .cancelled => o.status = .cancelled

/-- An orderly event keeps the order of the OMS in step with the exchange. -/
private lemma Matches.step {x : Life} {o : Order} (h : Matches x o) (id : ℕ) {e : Event}
    (hallowed : x.Allowed e) (horderly : x.Orderly e) : Matches (x.step e) (e.onOrder id o).1 := by
  obtain ⟨hqty, hfilled, hstatus⟩ := h
  cases e with
  | acknowledge ack =>
    simp only [Life.Allowed] at hallowed
    simp only [hallowed] at hstatus
    obtain ⟨hs, hm, hlt⟩ := hstatus
    refine ⟨?_, ?_, ?_⟩ <;>
      simp_all [Event.onOrder, OMS.ackOrder, OrderStateMachine.transition_fst, Life.step,
        OrderStateMachine.legal]
  | execute fill =>
    obtain ⟨hphase, hpos, hle⟩ := hallowed
    simp only [hphase] at hstatus
    obtain ⟨hlt, hs⟩ := hstatus
    -- the order accepts the fill: it is not marked, or the fill completes it
    have hacc : OrderStateMachine.acceptsFill o fill.fillQty = true := by
      cases hm : x.marked
      · rw [hm] at hs
        rcases hs with hs | hs <;> simp [OrderStateMachine.acceptsFill, hs]
      · simp only [hm, if_true] at hs
        have hfull := horderly hm
        simp only [OrderStateMachine.acceptsFill, hs, decide_eq_true_eq]
        omega
    have hok : (Event.onOrder id (.execute fill) o).1 =
        OrderStateMachine.filledOrder o fill.fillQty := by
      simp only [Event.onOrder, OrderStateMachine.applyFill_eq, hpos, hacc, and_self, if_true]
    rw [hok]
    refine ⟨hqty, ?_, ?_⟩
    · simp only [OrderStateMachine.filledOrder, Life.step]
      omega
    · by_cases hfull : x.executed + fill.fillQty = x.qty
      · have hfull' : o.qty ≤ o.filledQty + fill.fillQty := by omega
        simp [Life.step, hfull, OrderStateMachine.filledOrder, hfull']
      · have hm : x.marked = false := by
          cases hm : x.marked
          · rfl
          · exact absurd (horderly hm) hfull
        have hfull' : ¬o.qty ≤ o.filledQty + fill.fillQty := by omega
        simp only [Life.step, hphase, hfull, if_false, hm, OrderStateMachine.filledOrder, hfull']
        refine ⟨by omega, ?_⟩
        simp
  | cancel =>
    simp only [Life.Allowed] at hallowed
    simp only [Life.Orderly] at horderly
    simp only [hallowed, horderly, if_true] at hstatus
    refine ⟨?_, ?_, ?_⟩ <;>
      simp_all [Event.onOrder, OrderStateMachine.transition_fst, Life.step, OrderStateMachine.legal]
  | mark =>
    refine ⟨?_, ?_, ?_⟩
    · simpa [Event.onOrder, OrderStateMachine.transition_fst, Life.step] using hqty
    · simpa [Event.onOrder, OrderStateMachine.transition_fst, Life.step] using hfilled
    · cases hp : x.phase <;> cases hm : x.marked <;>
        simp_all [Event.onOrder, OrderStateMachine.transition_fst, Life.step,
          OrderStateMachine.legal]
      rcases hstatus.2 with hs | hs <;> simp [hs]

/-- An event out of order is refused by the state machine: the execution is missed, or the order is
left open. -/
private lemma Matches.not_step {x : Life} {o : Order} (h : Matches x o) (id : ℕ) {e : Event}
    (hallowed : x.Allowed e) (horderly : ¬x.Orderly e) :
    ¬((e.onOrder id o).1.filledQty = (x.step e).executed ∧
      ((x.step e).phase = .cancelled → (e.onOrder id o).1.status = .cancelled)) := by
  obtain ⟨hqty, hfilled, hstatus⟩ := h
  rintro ⟨hexec, hclosed⟩
  cases e with
  | acknowledge ack => exact horderly trivial
  | mark => exact horderly trivial
  | execute fill =>
    obtain ⟨hphase, hpos, hle⟩ := hallowed
    obtain ⟨hm, hpart⟩ := Classical.not_imp.mp horderly
    simp only [hphase, hm, if_true] at hstatus
    -- a pending cancel refuses an execution that leaves the order open
    have hacc : OrderStateMachine.acceptsFill o fill.fillQty = false := by
      simp only [OrderStateMachine.acceptsFill, hstatus.2, decide_eq_false_iff_not]
      omega
    simp only [Event.onOrder, OrderStateMachine.applyFill_eq, hacc, Bool.false_eq_true, and_false,
      if_false, Life.step] at hexec
    omega
  | cancel =>
    simp only [Life.Allowed] at hallowed
    simp only [Life.Orderly, Bool.not_eq_true] at horderly
    simp only [hallowed, horderly, Bool.false_eq_true, if_false] at hstatus
    -- there is no edge to `cancelled` from the state of an order that is not marked
    have hlegal : OrderStateMachine.legal o.status .cancelled = false := by
      rcases hstatus.2 with hs | hs <;> simp [hs, OrderStateMachine.legal]
    have hs := hclosed rfl
    simp only [Event.onOrder, OrderStateMachine.transition_fst, hlegal, Bool.false_eq_true,
      if_false] at hs
    simp [hs] at hstatus

/-- The invariant of an orderly life: the OMS has an order under the id that matches the exchange.
-/
private def Synced (id : ℕ) (d : Life × OMS) : Prop :=
  d.2.StoreInv ∧ ∃ o, d.2.orderAt id = some o ∧ Matches d.1 o

private lemma orderAt_deliver {id : ℕ} {d : Life × OMS} (h : d.2.StoreInv) {o : Order}
    (ho : d.2.orderAt id = some o) (e : Event) :
    (deliver id d e).2.orderAt id = some (e.onOrder id o).1 := by
  rw [deliver, OMS.orderAt_perform_of_op h (e.call_op id), if_pos rfl, ho, Option.map_some]

private lemma Synced.agrees {id : ℕ} {d : Life × OMS} (h : Synced id d) : Agrees id d := by
  obtain ⟨-, o, ho, -, hfilled, hstatus⟩ := h
  refine ⟨o, ho, hfilled, fun hp => ?_, fun hp => ?_⟩ <;> rw [hp] at hstatus <;> exact hstatus

private lemma Synced.deliver {id : ℕ} {d : Life × OMS} {e : Event} (hallowed : d.1.Allowed e)
    (horderly : d.1.Orderly e) (h : Synced id d) : Synced id (deliver id d e) := by
  obtain ⟨hstore, o, ho, hmatch⟩ := h
  exact ⟨hstore.perform _, _, orderAt_deliver hstore ho e, hmatch.step id hallowed horderly⟩

private lemma Synced.not_agrees {id : ℕ} {d : Life × OMS} {e : Event} (hallowed : d.1.Allowed e)
    (horderly : ¬d.1.Orderly e) (h : Synced id d) :
    ¬Agrees id (ExchangeAgreement.deliver id d e) := by
  obtain ⟨hstore, o, ho, hmatch⟩ := h
  rintro ⟨o', ho', hfilled, -, hcancelled⟩
  rw [orderAt_deliver hstore ho, Option.mem_some_iff] at ho'
  subst ho'
  exact hmatch.not_step id hallowed horderly ⟨hfilled, hcancelled⟩

/-- A successful submit leaves the OMS and the exchange with the same new order. -/
private lemma synced_submit {s : OMS} (h : s.StoreInv) {req : OrderRequest} (hq : 0 < req.qty)
    {now : ℕ} (hsub : (s.submit req now).2 ≠ none) :
    Synced s.nextOrderId (.submitted req.qty, (s.submit req now).1) := by
  have hroom : s.activeOrders < poolSize := by
    rcases h.activeOrders_le.lt_or_eq with hroom | hfull
    · exact hroom
    · rw [OMS.submit_of_full h hfull] at hsub
      exact absurd rfl hsub
  obtain ⟨ptr, -, hnew⟩ := OMS.submit_of_room h hroom req now
  exact ⟨hnew.storeInv, s.newOrder req now, by rw [hnew.orderAt, if_pos rfl],
    ⟨rfl, rfl, rfl, rfl, hq⟩⟩

/-! ## When the OMS agrees -/

/-- **Agreement with the exchange.**  Let an order of positive quantity be submitted in any state
that the OMS can be in, and let its life at the exchange and the marks of the client take any
course.  The OMS agrees with the exchange after every event exactly when the life is orderly. -/
theorem agrees_iff_orderly (calls : List OMS.Call) (req : OrderRequest) (now : ℕ)
    (events : List Event) (hq : 0 < req.qty)
    (hsub : ((OMS.after calls).submit req now).2 ≠ none)
    (hlife : Transition.Admissible Life.step Life.Allowed (.submitted req.qty) events) :
    (∀ early, early <+: events → Agrees (OMS.after calls).nextOrderId
        (Transition.run (deliver (OMS.after calls).nextOrderId)
          (.submitted req.qty, ((OMS.after calls).submit req now).1) early)) ↔
      Transition.Admissible Life.step Life.Orderly (.submitted req.qty) events := by
  have hproj : ∀ d e, (deliver (OMS.after calls).nextOrderId d e).1 = Life.step d.1 e :=
    fun _ _ => rfl
  have hadm : Transition.Admissible (deliver (OMS.after calls).nextOrderId)
      (fun d e => Life.Allowed d.1 e) (.submitted req.qty, ((OMS.after calls).submit req now).1)
      events :=
    (Transition.admissible_proj hproj _ _).mpr hlife
  rw [Transition.forall_prefix_iff_admissible (D := fun d e => Life.Orderly d.1 e)
    (P := Synced _) (G := Agrees _) (fun _ h => Synced.agrees h) (fun _ _ => Synced.deliver)
    (fun _ _ => Synced.not_agrees) hadm
    (synced_submit (OMS.storeInv_after calls) hq hsub)]
  exact Transition.admissible_proj hproj _ _

/-- A buy of 100 on instrument 42. -/
def buy100 : OrderRequest :=
  { instrumentId := 42, price := 10000, qty := 100 }

/-- The exchange executes 40, the client marks the order, and the exchange executes the other 60
before it handles the cancel. -/
def completedWhileMarked : List Event :=
  [.acknowledge {}, .execute { fillQty := 40 }, .mark, .execute { fillQty := 60 }]

theorem agrees_iff_orderly_completedWhileMarked :
    Agrees 1 (Transition.run (deliver 1)
      (.submitted 100, ((OMS.after []).submit buy100 0).1) completedWhileMarked) :=
  (agrees_iff_orderly [] buy100 0 completedWhileMarked (by decide) (by decide) (by decide)).mpr
    (by decide) completedWhileMarked (List.prefix_refl _)

/-- The exchange executes 50 out of 100 after the client marked the order. -/
def partialWhileMarked : List Event :=
  [.acknowledge {}, .mark, .execute { fillQty := 50 }]

/-- The exchange cancels an order that the client did not mark. -/
def unsolicitedCancel : List Event :=
  [.acknowledge {}, .cancel]

/-- The OMS misses an execution that is reported after the mark, and leaves an order open that the
exchange cancels without a request. -/
theorem not_agrees_partialWhileMarked_unsolicitedCancel :
    (Transition.Admissible Life.step Life.Allowed (.submitted 100) partialWhileMarked ∧
      ¬Agrees 1 (Transition.run (deliver 1)
        (.submitted 100, ((OMS.after []).submit buy100 0).1) partialWhileMarked)) ∧
    (Transition.Admissible Life.step Life.Allowed (.submitted 100) unsolicitedCancel ∧
      ¬Agrees 1 (Transition.run (deliver 1)
        (.submitted 100, ((OMS.after []).submit buy100 0).1) unsolicitedCancel)) := by
  decide

end ExchangeAgreement

end QuantTrade
