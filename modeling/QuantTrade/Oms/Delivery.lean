import QuantTrade.Oms.Lifecycle

/-!
# Delivering reports to the OMS

The answers of the OMS to a list of calls.  Calls about different orders do not disturb each other:
each is answered as if it were the first, and each order is changed by its own call only
(`run_distinct`).
-/

namespace QuantTrade

namespace OMS

open Transition (run)

/-- What a call returns; a submit returns whether there is an order. -/
def answer (s : OMS) : Call → Bool
  | .submit req now => (s.submit req now).2.isSome
  | .onAck ack => (s.onAck ack).2
  | .onFill fill => (s.onFill fill).2
  | .onCancelAck id => (s.onCancelAck id).2
  | .markPendingCancel id => (s.markPendingCancel id).2
  | .release _ => true

/-- What the calls of a run return. -/
def answers : OMS → List Call → List Bool
  | _, [] => []
  | s, c :: calls => s.answer c :: answers (s.perform c) calls

lemma answers_append (s : OMS) (calls calls' : List Call) :
    s.answers (calls ++ calls') = s.answers calls ++ (run perform s calls).answers calls' := by
  induction calls generalizing s with
  | nil => rfl
  | cons c calls ih =>
    rw [List.cons_append, answers, answers, ih, List.cons_append, Transition.run_cons]

/-- The answer of a call that runs an operation on an order. -/
lemma answer_of_op {s : OMS} {c : Call} {id : ℕ} {f : Order → Order × Bool}
    (hop : c.op = some (id, f)) :
    s.answer c = ((s.orderAt id).map fun o => (f o).2).getD false := by
  obtain ⟨ack, rfl, rfl, rfl⟩ | ⟨fill, rfl, rfl, rfl⟩ | ⟨rfl, rfl⟩ | ⟨rfl, rfl⟩ :=
    Call.op_cases hop
  · exact updateOrder_snd
  · exact onFill_snd s fill
  · exact updateOrder_snd
  · exact updateOrder_snd

/-- A call that runs an operation on an order hands out no id. -/
lemma nextOrderId_perform_of_op {s : OMS} {c : Call} (hop : c.op.isSome) :
    (s.perform c).nextOrderId = s.nextOrderId := by
  cases c with
  | submit _ _ => cases hop
  | release _ => cases hop
  | onFill fill => exact nextOrderId_onFill s fill
  | onAck ack => exact nextOrderId_updateOrder
  | onCancelAck _ => exact nextOrderId_updateOrder
  | markPendingCancel _ => exact nextOrderId_updateOrder

/-- A run of calls about these orders, one call for each, from `s` to `s'`. -/
structure Distinct {ι : Type} (key : ι → ℕ) (op : ι → Order → Order × Bool) (items : List ι)
    (s s' : OMS) (returned : List Bool) : Prop where
  storeInv : s'.StoreInv
  nextOrderId : s'.nextOrderId = s.nextOrderId
  others : ∀ id, (∀ x ∈ items, key x ≠ id) → s'.orderAt id = s.orderAt id
  orders : ∀ x ∈ items, s'.orderAt (key x) = (s.orderAt (key x)).map fun o => (op x o).1
  returned : returned = items.map fun x =>
    ((s.orderAt (key x)).map fun o => (op x o).2).getD false

/-- **Calls about different orders.**  Each call is answered as if it were the first, and changes
its own order only. -/
theorem run_distinct {ι : Type} {key : ι → ℕ} {op : ι → Order → Order × Bool} {call : ι → Call}
    (hop : ∀ x, (call x).op = some (key x, op x)) {items : List ι}
    (hdistinct : (items.map key).Nodup) {s : OMS} (h : s.StoreInv) :
    Distinct key op items s (run perform s (items.map call)) (s.answers (items.map call)) := by
  induction items generalizing s with
  | nil => exact ⟨h, rfl, fun _ _ => rfl, by simp, rfl⟩
  | cons x items ih =>
    obtain ⟨hfresh, hdistinct⟩ := List.nodup_cons.mp hdistinct
    have hne (y : ι) (hy : y ∈ items) : key y ≠ key x :=
      fun heq => hfresh (heq ▸ List.mem_map_of_mem hy)
    have hstep := orderAt_perform_of_op h (hop x)
    have hother (y : ι) (hy : y ∈ items) :
        (s.perform (call x)).orderAt (key y) = s.orderAt (key y) :=
      (hstep _).trans (if_neg (hne y hy))
    have hrest := ih hdistinct (h.perform (call x))
    rw [List.map_cons, Transition.run_cons, answers]
    constructor
    · exact hrest.storeInv
    · exact hrest.nextOrderId.trans (nextOrderId_perform_of_op (by rw [hop]; rfl))
    · intro id hid
      rw [hrest.others id fun y hy => hid y (List.mem_cons_of_mem x hy), hstep,
        if_neg (hid x List.mem_cons_self).symm]
    · intro y hy
      rcases List.mem_cons.mp hy with rfl | hy
      · rw [hrest.others _ hne, hstep, if_pos rfl]
      · rw [hrest.orders y hy, hother y hy]
    · rw [List.map_cons, answer_of_op (hop x), hrest.returned, List.cons.injEq]
      refine ⟨rfl, List.map_congr_left fun y hy => ?_⟩
      rw [hother y hy]

end OMS

end QuantTrade
