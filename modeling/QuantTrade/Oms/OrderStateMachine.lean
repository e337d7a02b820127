import Mathlib.Order.MinMax
import Mathlib.Algebra.Order.Group.Int
import QuantTrade.Oms.Order

/-!
# The order state machine

`OrderStateMachine` of `src/oms/order_state_machine.cpp`.  The legal edges are

* `pendingNew → new | rejected`
* `new → partiallyFilled | filled | pendingCancel`
* `partiallyFilled → partiallyFilled | filled | pendingCancel`
* `pendingCancel → cancelled | filled`

`applyFill` is characterised by `applyFill_snd_eq_true_iff` (when it accepts),
`applyFill_of_accepted` (what it then does) and `applyFill_of_refused` (a refused fill leaves the
order alone).
-/

namespace QuantTrade

namespace OrderStateMachine

/-- The edges of the transition graph. -/
def legal (status newStatus : OrderStatus) : Bool :=
  match status with
  | .pendingNew => newStatus == .new || newStatus == .rejected
  | .new => newStatus == .partiallyFilled || newStatus == .filled || newStatus == .pendingCancel
  | .partiallyFilled =>
    newStatus == .partiallyFilled || newStatus == .filled || newStatus == .pendingCancel
  | .pendingCancel => newStatus == .cancelled || newStatus == .filled
  -- no edge leaves a terminal state
  | .filled => false
  | .cancelled => false
  | .rejected => false

/-- `transition`: follow an edge of the graph; anything else leaves the order alone. -/
def transition (order : Order) (newStatus : OrderStatus) : Order × Bool :=
  if legal order.status newStatus then ({ order with status := newStatus }, true)
  else (order, false)

/-- `apply_fill`: add `fillQty` to the filled quantity, clamped at the order quantity, and move to
`filled` or `partiallyFilled`. -/
def applyFill (order : Order) (fillQty : ℤ) : Order × Bool :=
  if fillQty ≤ 0 then (order, false)
  else if !order.isActive then (order, false)
  else
    let oldFilled := order.filledQty
    let newFilled := if oldFilled + fillQty > order.qty then order.qty else oldFilled + fillQty
    let target := if newFilled ≥ order.qty then OrderStatus.filled else OrderStatus.partiallyFilled
    -- the quantity is written first and rolled back when the edge is not legal
    let written := { order with filledQty := newFilled }
    match transition written target with
    | (moved, true) => (moved, true)
    | (kept, false) => ({ kept with filledQty := oldFilled }, false)

/-! ## What the two operations do -/

lemma transition_of_legal {order : Order} {newStatus : OrderStatus}
    (h : legal order.status newStatus = true) :
    transition order newStatus = ({ order with status := newStatus }, true) :=
  if_pos h

lemma transition_of_not_legal {order : Order} {newStatus : OrderStatus}
    (h : legal order.status newStatus = false) : transition order newStatus = (order, false) :=
  if_neg (by simp [h])

@[simp] lemma transition_snd (order : Order) (newStatus : OrderStatus) :
    (transition order newStatus).2 = legal order.status newStatus := by
  cases h : legal order.status newStatus
  · rw [transition_of_not_legal h]
  · rw [transition_of_legal h]

/-- A transition touches nothing but the status. -/
lemma transition_fst (order : Order) (newStatus : OrderStatus) :
    (transition order newStatus).1 =
      { order with
        status := if legal order.status newStatus then newStatus else order.status } := by
  cases h : legal order.status newStatus
  · rw [transition_of_not_legal h]
    simp
  · rw [transition_of_legal h]
    simp

/-- No edge leaves a terminal state. -/
lemma legal_of_isTerminal {order : Order} (h : order.isTerminal = true) (newStatus : OrderStatus) :
    legal order.status newStatus = false := by
  cases hs : order.status <;> simp [Order.isTerminal, hs, legal] at h ⊢

/-- The order after an accepted fill: the quantity is added and clamped at the order quantity. -/
def filledOrder (order : Order) (fillQty : ℤ) : Order :=
  { order with
    filledQty := min (order.filledQty + fillQty) order.qty
    status := if order.qty ≤ order.filledQty + fillQty then .filled else .partiallyFilled }

/-- The states in which a fill of this size is legal.  While a cancel is pending only the execution
that completes the order is. -/
def acceptsFill (order : Order) (fillQty : ℤ) : Bool :=
  match order.status with
  | .new => true
  | .partiallyFilled => true
  | .pendingCancel => decide (order.qty ≤ order.filledQty + fillQty)
  | _ => false

/-- `applyFill` in closed form: it accepts the fill and moves the order, or refuses it and the order
is what it was. -/
lemma applyFill_eq (order : Order) (fillQty : ℤ) :
    applyFill order fillQty =
      if 0 < fillQty ∧ acceptsFill order fillQty = true then (filledOrder order fillQty, true)
      else (order, false) := by
  obtain ⟨_, _, _, _, _, status, _, qty, filled, _, _⟩ := order
  by_cases hpos : 0 < fillQty
  · -- the clamped quantity reaches the order quantity exactly when the unclamped one does
    have hclamp : (if qty < filled + fillQty then qty else filled + fillQty) =
        min (filled + fillQty) qty := by
      split <;> omega
    have htarget : qty ≤ min (filled + fillQty) qty ↔ qty ≤ filled + fillQty := by omega
    have hneg : ¬fillQty ≤ 0 := by omega
    cases status <;> by_cases hfull : qty ≤ filled + fillQty <;>
      simp [applyFill, Order.isActive, transition, legal, acceptsFill, filledOrder, hclamp, htarget,
        hfull, hpos, hneg]
  · have hle : fillQty ≤ 0 := by omega
    simp [applyFill, hle, hpos]

theorem applyFill_snd_eq_true_iff (order : Order) (fillQty : ℤ) :
    (applyFill order fillQty).2 = true ↔ 0 < fillQty ∧ acceptsFill order fillQty = true := by
  rw [applyFill_eq]
  split <;> simp_all

theorem applyFill_of_accepted {order : Order} {fillQty : ℤ}
    (h : (applyFill order fillQty).2 = true) :
    (applyFill order fillQty).1 = filledOrder order fillQty := by
  rw [applyFill_snd_eq_true_iff] at h
  rw [applyFill_eq, if_pos h]

theorem applyFill_of_refused {order : Order} {fillQty : ℤ}
    (h : (applyFill order fillQty).2 = false) : (applyFill order fillQty).1 = order := by
  rw [applyFill_eq] at h ⊢
  split <;> simp_all

end OrderStateMachine

end QuantTrade
