import Mathlib.Algebra.BigOperators.Group.Finset.Basic
import Mathlib.Algebra.Ring.Int.Defs
import Mathlib.Algebra.Order.Group.Int
import Mathlib.Tactic.Linarith
import QuantTrade.Oms.Lifecycle

/-!
# Conservation of filled quantity

The OMS counts filled quantity twice: in the orders, and per instrument in the fill tracker.  An
`Audit` follows a run and remembers the last version of every order ever submitted, so that the two
counts can be compared after orders were released.  They differ by what `apply_fill` clamps away
from the fills that exceed their order, since the tracker receives the raw event
(`totalFilledQty_eq_add_sumAlong`).
-/

open Finset

namespace QuantTrade

namespace OMS

/-- An OMS with the last version of every order that was ever in its table. -/
structure Audit where
  oms : OMS
  last : ℕ → Option Order

namespace Audit

/-- A new OMS has no orders. -/
def init : Audit where
  oms := .init
  last _ := none

/-- A call, after which the orders in the table are remembered. -/
def perform (a : Audit) (c : Call) : Audit where
  oms := a.oms.perform c
  last id := ((a.oms.perform c).orderAt id).or (a.last id)

/-- What an order adds to the filled quantity of instrument `i`. -/
def share (i : ℕ) (o : Option Order) : ℤ :=
  match o with
  | some o => if o.instrumentId = i then o.filledQty else 0
  | none => 0

/-- The sum of the final filled quantities of all orders ever submitted on instrument `i`. -/
def filledQtyEver (a : Audit) (i : ℕ) : ℤ :=
  ∑ id ∈ range a.oms.nextOrderId, share i (a.last id)

end Audit

/-- The audit of a run. -/
def audit (calls : List Call) : Audit :=
  Transition.run Audit.perform .init calls

/-- Each fill carries the instrument of the order it names. -/
def CarriesInstrument (s : OMS) : Call → Prop
  | .onFill fill => ∀ o ∈ s.orderAt fill.clientOrderId, fill.instrumentId = o.instrumentId
  | _ => True

instance (s : OMS) : DecidablePred s.CarriesInstrument
  | .onFill fill => inferInstanceAs
      (Decidable (∀ o ∈ s.orderAt fill.clientOrderId, fill.instrumentId = o.instrumentId))
  | .submit _ _ | .onAck _ | .onCancelAck _ | .markPendingCancel _ | .release _ =>
    inferInstanceAs (Decidable True)

/-- A fill on instrument `i` that is accepted does not exceed what its order still has to fill. -/
def FitsOrder (i : ℕ) (s : OMS) : Call → Prop
  | .onFill fill => (s.onFill fill).2 = true → fill.instrumentId = i →
      ∀ o ∈ s.orderAt fill.clientOrderId, fill.fillQty ≤ o.remainingQty
  | _ => True

/-- The part of an accepted fill on instrument `i` that the order clamps away. -/
def overfill (i : ℕ) (s : OMS) : Call → ℤ
  | .onFill fill =>
    if (s.onFill fill).2 = true ∧ fill.instrumentId = i then
      match s.orderAt fill.clientOrderId with
      | some o => max 0 (o.filledQty + fill.fillQty - o.qty)
      | none => 0
    else 0
  | _ => 0

lemma overfill_nonneg (i : ℕ) (s : OMS) (c : Call) : 0 ≤ overfill i s c := by
  cases c <;> simp only [overfill, le_refl]
  split_ifs
  · split
    · exact le_max_left _ _
    · exact le_rfl
  · exact le_rfl

namespace Audit

/-- The audit runs alongside the OMS. -/
lemma oms_perform (a : Audit) (c : Call) : (a.perform c).oms = a.oms.perform c := rfl

/-- The audit remembers the orders in the table as they are, and nothing under the ids to come. -/
structure Inv (a : Audit) : Prop where
  storeInv : a.oms.StoreInv
  last_of_orderAt : ∀ {id o}, a.oms.orderAt id = some o → a.last id = some o
  last_of_le : ∀ {id}, a.oms.nextOrderId ≤ id → a.last id = none

/-- Remembering the orders in the table again changes nothing. -/
private lemma Inv.or_last {a : Audit} (h : a.Inv) (id : ℕ) :
    (a.oms.orderAt id).or (a.last id) = a.last id := by
  cases ho : a.oms.orderAt id with
  | none => rfl
  | some o => rw [h.last_of_orderAt ho, Option.some_or]

lemma inv_init : Inv init :=
  ⟨storeInv_init, fun h => by simp [init] at h, fun _ => rfl⟩

lemma Inv.perform {a : Audit} (h : a.Inv) (c : Call) : (a.perform c).Inv := by
  have hs := h.storeInv.perform c
  constructor
  · exact hs
  · intro id o ho
    change ((a.oms.perform c).orderAt id).or (a.last id) = some o
    rw [show (a.oms.perform c).orderAt id = some o from ho, Option.some_or]
  · intro id hid
    have hnone : (a.oms.perform c).orderAt id = none := by
      cases ho : (a.oms.perform c).orderAt id with
      | none => rfl
      | some o => exact absurd (hs.lt_nextOrderId ho) (not_lt.mpr hid)
    change ((a.oms.perform c).orderAt id).or (a.last id) = none
    rw [hnone, Option.none_or]
    exact h.last_of_le ((nextOrderId_le_perform h.storeInv c).trans hid)

/-- A call that enters no new order and takes every order it leaves in the table over from before
changes the total by the change of the shares. -/
private lemma filledQtyEver_of_update {a a' : Audit} {i id : ℕ} {o o' : Order}
    (hnext : a'.oms.nextOrderId = a.oms.nextOrderId) (hid : id < a.oms.nextOrderId)
    (ho : a.last id = some o) (hlast : a'.last = Function.update a.last id (some o')) :
    a'.filledQtyEver i = a.filledQtyEver i + (share i (some o') - share i (some o)) := by
  have hmem : id ∈ range a.oms.nextOrderId := mem_range.mpr hid
  have hrest : ∀ j ∈ (range a.oms.nextOrderId).erase id,
      share i (a'.last j) = share i (a.last j) := by
    intro j hj
    rw [hlast, Function.update_of_ne (ne_of_mem_erase hj)]
  have hold := add_sum_erase _ (fun j => share i (a.last j)) hmem
  have hnew := add_sum_erase _ (fun j => share i (a'.last j)) hmem
  rw [sum_congr rfl hrest] at hnew
  simp only [hlast, Function.update_self] at hnew
  simp only [ho] at hold
  simp only [filledQtyEver, hnext, hlast]
  omega

/-- A call that leaves the memory of the audit alone leaves the total alone. -/
private lemma filledQtyEver_of_eq {a a' : Audit} {i : ℕ}
    (hnext : a'.oms.nextOrderId = a.oms.nextOrderId) (hlast : a'.last = a.last) :
    a'.filledQtyEver i = a.filledQtyEver i := by
  rw [filledQtyEver, filledQtyEver, hnext, hlast]

/-- What the audit remembers after an operation on the order `id`. -/
private lemma last_of_op {a : Audit} (h : a.Inv) {c : Call} {id : ℕ} {f : Order → Order × Bool}
    (hop : c.op = some (id, f)) :
    (a.perform c).last =
      match a.oms.orderAt id with
      | some o => Function.update a.last id (some (f o).1)
      | none => a.last := by
  funext j
  change ((a.oms.perform c).orderAt j).or (a.last j) = _
  rw [orderAt_perform_of_op h.storeInv hop]
  cases ho : a.oms.orderAt id with
  | none =>
    split_ifs with hj
    · rfl
    · exact h.or_last j
  | some o =>
    by_cases hj : j = id
    · subst hj
      simp
    · simpa [hj] using h.or_last j

/-- A submit adds an order that is not filled at all. -/
private lemma filledQtyEver_submit {a : Audit} (h : a.Inv) (req : OrderRequest) (now i : ℕ) :
    (a.perform (.submit req now)).filledQtyEver i = a.filledQtyEver i := by
  rcases h.storeInv.activeOrders_le.lt_or_eq with hroom | hfull
  · obtain ⟨ptr, -, hsub⟩ := submit_of_room h.storeInv hroom req now
    have hlast : ∀ id, (a.perform (.submit req now)).last id =
        if id = a.oms.nextOrderId then some (a.oms.newOrder req now) else a.last id := by
      intro id
      change ((a.oms.perform (.submit req now)).orderAt id).or (a.last id) = _
      rw [OMS.perform, hsub.orderAt]
      split_ifs
      · rfl
      · exact h.or_last id
    have hnext : (a.perform (.submit req now)).oms.nextOrderId = a.oms.nextOrderId + 1 :=
      hsub.nextOrderId
    rw [filledQtyEver, hnext, sum_range_succ, hlast, if_pos rfl, filledQtyEver]
    have hnew : share i (some (a.oms.newOrder req now)) = 0 := by
      change (if req.instrumentId = i then (0 : ℤ) else 0) = 0
      exact ite_self 0
    rw [hnew, add_zero]
    apply sum_congr rfl
    intro id hid
    rw [hlast, if_neg (mem_range.mp hid).ne]
  · have hsub : a.oms.perform (.submit req now) = a.oms := by
      rw [OMS.perform, submit_of_full h.storeInv hfull]
    apply filledQtyEver_of_eq (by rw [perform, hsub])
    funext id
    change ((a.oms.perform (.submit req now)).orderAt id).or (a.last id) = a.last id
    rw [hsub, h.or_last]

/-- A released order is remembered. -/
private lemma filledQtyEver_release {a : Audit} (h : a.Inv) (id i : ℕ) :
    (a.perform (.release id)).filledQtyEver i = a.filledQtyEver i := by
  apply filledQtyEver_of_eq (nextOrderId_release a.oms id)
  funext j
  change ((a.oms.release id).orderAt j).or (a.last j) = a.last j
  rw [orderAt_release h.storeInv]
  split_ifs
  · rfl
  · exact h.or_last j

/-- An operation on an order changes the total by the change of the share of that order. -/
private lemma filledQtyEver_of_op {a : Audit} (h : a.Inv) {c : Call} {id : ℕ}
    {f : Order → Order × Bool} (hop : c.op = some (id, f)) (i : ℕ) :
    (a.perform c).filledQtyEver i = a.filledQtyEver i +
      (a.oms.orderAt id).elim 0 fun o => share i (some (f o).1) - share i (some o) := by
  have hnext : (a.perform c).oms.nextOrderId = a.oms.nextOrderId := by
    cases c with
    | submit _ _ => simp [Call.op] at hop
    | release _ => simp [Call.op] at hop
    | onFill fill => exact nextOrderId_onFill a.oms fill
    | onAck ack => exact nextOrderId_updateOrder
    | onCancelAck _ => exact nextOrderId_updateOrder
    | markPendingCancel _ => exact nextOrderId_updateOrder
  have hlast := last_of_op h hop
  cases ho : a.oms.orderAt id with
  | none =>
    rw [ho] at hlast
    rw [filledQtyEver_of_eq hnext hlast, Option.elim_none, add_zero]
  | some o =>
    rw [ho] at hlast
    exact filledQtyEver_of_update hnext (h.storeInv.lt_nextOrderId ho) (h.last_of_orderAt ho) hlast

/-- The share of an order does not change by an operation that keeps its instrument and its filled
quantity. -/
private lemma filledQtyEver_of_op_eq {a : Audit} (h : a.Inv) {c : Call} {id : ℕ}
    {f : Order → Order × Bool} (hop : c.op = some (id, f))
    (hf : ∀ o, (f o).1.instrumentId = o.instrumentId ∧ (f o).1.filledQty = o.filledQty) (i : ℕ) :
    (a.perform c).filledQtyEver i = a.filledQtyEver i := by
  rw [filledQtyEver_of_op h hop]
  cases a.oms.orderAt id with
  | none => simp
  | some o => simp [share, (hf o).1, (hf o).2]

/-- By how much the count of the tracker exceeds that of the orders. -/
def gap (i : ℕ) (a : Audit) : ℤ :=
  a.oms.fillTracker.totalFilledQty i - a.filledQtyEver i

/-- A fill widens the gap by what the order clamps away. -/
private lemma gap_onFill {a : Audit} (h : a.Inv) {fill : FillEvent}
    (hc : CarriesInstrument a.oms (.onFill fill)) {i : ℕ} (hi : i < maxInstruments) :
    gap i (a.perform (.onFill fill)) = gap i a + overfill i a.oms (.onFill fill) := by
  have hever := filledQtyEver_of_op h (c := .onFill fill) rfl i
  have htracker : (a.perform (.onFill fill)).oms.fillTracker =
      if (a.oms.onFill fill).2 then a.oms.fillTracker.onFill fill else a.oms.fillTracker :=
    fillTracker_onFill a.oms fill
  have hacc := onFill_snd a.oms fill
  cases ho : a.oms.orderAt fill.clientOrderId with
  | none =>
    simp only [ho, Option.map_none, Option.getD_none, Option.elim_none] at hacc hever
    simp [gap, hever, htracker, overfill, hacc]
  | some o =>
    have hinst : fill.instrumentId = o.instrumentId := hc o ho
    simp only [ho, Option.map_some, Option.getD_some, Option.elim_some] at hacc hever
    cases hok : (OrderStateMachine.applyFill o fill.fillQty).2
    · rw [OrderStateMachine.applyFill_of_refused hok, sub_self, add_zero] at hever
      simp [gap, hever, htracker, overfill, hacc, hok]
    · rw [OrderStateMachine.applyFill_of_accepted hok] at hever
      rw [gap, gap, hever, htracker, if_pos (by rw [hacc, hok]),
        FillTracker.totalFilledQty_onFill _ _ hi]
      simp only [overfill, hacc, hok, ho, true_and, share, OrderStateMachine.filledOrder, hinst]
      by_cases hi' : o.instrumentId = i
      · simp only [hi', if_true]
        omega
      · simp only [hi', if_false]
        omega

/-- A call that is not a fill touches neither count. -/
private lemma gap_of_not_fill {a : Audit} {c : Call} {i : ℕ}
    (htracker : (a.perform c).oms.fillTracker = a.oms.fillTracker)
    (hever : (a.perform c).filledQtyEver i = a.filledQtyEver i) (hover : overfill i a.oms c = 0) :
    gap i (a.perform c) = gap i a + overfill i a.oms c := by
  rw [gap, gap, htracker, hever, hover, add_zero]

/-- A transition keeps the instrument and the filled quantity of the order. -/
private lemma keeps_transition (newStatus : OrderStatus) (o : Order) :
    (OrderStateMachine.transition o newStatus).1.instrumentId = o.instrumentId ∧
      (OrderStateMachine.transition o newStatus).1.filledQty = o.filledQty := by
  rw [OrderStateMachine.transition_fst]
  exact ⟨rfl, rfl⟩

/-- A call widens the gap by the part of a fill that the order clamps away. -/
lemma gap_perform {a : Audit} (h : a.Inv) {c : Call} (hc : CarriesInstrument a.oms c) {i : ℕ}
    (hi : i < maxInstruments) : gap i (a.perform c) = gap i a + overfill i a.oms c := by
  cases c with
  | submit req now =>
    exact gap_of_not_fill (fillTracker_submit a.oms req now) (filledQtyEver_submit h req now i) rfl
  | release id =>
    exact gap_of_not_fill (fillTracker_release a.oms id) (filledQtyEver_release h id i) rfl
  | onFill fill => exact gap_onFill h hc hi
  | onAck ack =>
    have hever := filledQtyEver_of_op_eq h (c := .onAck ack) rfl (fun o => keeps_transition _ _) i
    exact gap_of_not_fill fillTracker_updateOrder hever rfl
  | onCancelAck id =>
    have hever := filledQtyEver_of_op_eq h (c := .onCancelAck id) rfl (keeps_transition _) i
    exact gap_of_not_fill fillTracker_updateOrder hever rfl
  | markPendingCancel id =>
    have hever := filledQtyEver_of_op_eq h (c := .markPendingCancel id) rfl (keeps_transition _) i
    exact gap_of_not_fill fillTracker_updateOrder hever rfl

end Audit

/-- Nothing is clamped away exactly from the fills that fit their order. -/
lemma overfill_eq_zero_iff (i : ℕ) (s : OMS) (c : Call) : overfill i s c = 0 ↔ FitsOrder i s c := by
  cases c with
  | onFill fill =>
    simp only [overfill, FitsOrder]
    by_cases hacc : (s.onFill fill).2 = true ∧ fill.instrumentId = i
    · rw [if_pos hacc]
      cases s.orderAt fill.clientOrderId with
      | none => simp
      | some o =>
        simp only [hacc, Option.mem_some_iff, forall_eq', forall_const, Order.remainingQty]
        omega
    · rw [if_neg hacc]
      exact iff_of_true rfl fun h1 h2 => absurd ⟨h1, h2⟩ hacc
  | _ => exact iff_of_true rfl trivial

/-- The tracker counts every accepted fill in full: it exceeds the filled quantities of the orders
by what the orders clamped away. -/
lemma totalFilledQty_eq_add_sumAlong {calls : List Call}
    (hcalls : Transition.Admissible perform CarriesInstrument init calls) {i : ℕ}
    (hi : i < maxInstruments) :
    (after calls).fillTracker.totalFilledQty i =
      (audit calls).filledQtyEver i + Transition.sumAlong perform (overfill i) init calls := by
  have hadm := (Transition.admissible_proj Audit.oms_perform .init calls).mpr hcalls
  have hgap := Transition.measure_run (m := Audit.gap i) (P := Audit.Inv)
    (fun a c _ h => h.perform c) (fun a c hc h => Audit.gap_perform h hc hi) hadm Audit.inv_init
  have hinit : Audit.gap i .init = 0 := by
    simp [Audit.gap, Audit.init, Audit.filledQtyEver, Audit.share, init, FillTracker.init,
      FillTracker.totalFilledQty]
  rw [hinit, zero_add, Transition.sumAlong_proj Audit.oms_perform, Audit.gap,
    Transition.proj_run Audit.oms_perform] at hgap
  exact eq_add_of_sub_eq' hgap

/-- **Conservation of filled quantity.**  When each fill carries the instrument of its order, the
tracker's total for an instrument is the sum of the final filled quantities of all orders ever
submitted on it, plus what the orders clamped away from the accepted fills.  The two counts agree
exactly when no accepted fill exceeded what its order still had to fill. -/
theorem totalFilledQty_conservation (calls : List Call)
    (hcalls : Transition.Admissible perform CarriesInstrument init calls) (i : ℕ)
    (hi : i < maxInstruments) :
    (after calls).fillTracker.totalFilledQty i =
        (audit calls).filledQtyEver i + Transition.sumAlong perform (overfill i) init calls ∧
      ((after calls).fillTracker.totalFilledQty i = (audit calls).filledQtyEver i ↔
        Transition.Admissible perform (FitsOrder i) init calls) := by
  have htotal := totalFilledQty_eq_add_sumAlong hcalls hi
  refine ⟨htotal, ?_⟩
  rw [htotal, add_eq_left, Transition.sumAlong_eq_zero_iff (overfill_nonneg i)]
  simp only [overfill_eq_zero_iff]

/-- A buy of 100 on instrument 42 that is acknowledged and then reported as filled by 150. -/
def overfilledBuy : List Call :=
  [.submit { instrumentId := 42, price := 10000, qty := 100 } 0,
    .onAck { clientOrderId := 1, exchangeOrderId := 9001 },
    .onFill { clientOrderId := 1, instrumentId := 42, fillPrice := 10000, fillQty := 150 }]

theorem totalFilledQty_conservation_overfilledBuy :
    (after overfilledBuy).fillTracker.totalFilledQty 42 =
      (audit overfilledBuy).filledQtyEver 42 +
        Transition.sumAlong perform (overfill 42) init overfilledBuy :=
  (totalFilledQty_conservation overfilledBuy (by decide) 42 (by decide)).1

/-- The tracker and the orders disagree after an overfill: 150 against 100. -/
theorem totalFilledQty_ne_filledQtyEver :
    ¬∀ calls : List Call, Transition.Admissible perform CarriesInstrument init calls →
      ∀ i < maxInstruments,
        (after calls).fillTracker.totalFilledQty i = (audit calls).filledQtyEver i := by
  intro h
  have h42 := h overfilledBuy (by decide) 42 (by decide)
  have htracker : (after overfilledBuy).fillTracker.totalFilledQty 42 = 150 := by decide
  have horders : (audit overfilledBuy).filledQtyEver 42 = 100 := by decide
  rw [htracker, horders] at h42
  exact absurd h42 (by decide)

end OMS

end QuantTrade
