import Mathlib.Algebra.Order.BigOperators.Group.List
import Mathlib.Algebra.Order.Ring.Int
import Mathlib.Data.List.Perm.Subperm
import QuantTrade.Library.Transition
import QuantTrade.Risk.PositionLimits

/-!
# Reservations on one instrument

A `Ledger` follows the calls on one instrument and keeps the reservations that were accepted and not
cancelled.  The slot is their net (`Ledger.Inv`): open buys and open sells cancel out in it.  Two
things follow.  The limit bounds what was executed together with what is still open, but not every
part of the accepted orders that may execute first (`executed_within_limits_iff`).  And a cancel can
take the slot over the limit, when the orders on the other side were let through against the
reservation it returns (`within_limits_iff`).
-/

namespace QuantTrade

/-- An order on the instrument, as the limits see it. -/
structure Reservation where
  side : Side
  qty : ℤ
  deriving DecidableEq, Repr

namespace Reservation

/-- The net quantity of some orders: buys count positive, sells negative. -/
def net (rs : List Reservation) : ℤ :=
  (rs.map fun r => r.side.signed r.qty).sum

/-- The quantity of the orders of one side. -/
def total (side : Side) (rs : List Reservation) : ℤ :=
  (rs.map fun r => if r.side = side then r.qty else 0).sum

@[simp] lemma net_nil : net [] = 0 := rfl

@[simp] lemma net_cons (r : Reservation) (rs : List Reservation) :
    net (r :: rs) = r.side.signed r.qty + net rs := by
  simp [net]

@[simp] lemma net_append (rs rs' : List Reservation) : net (rs ++ rs') = net rs + net rs' := by
  simp [net]

lemma net_perm {rs rs' : List Reservation} (h : rs.Perm rs') : net rs = net rs' :=
  (h.map _).sum_eq

lemma total_perm (side : Side) {rs rs' : List Reservation} (h : rs.Perm rs') :
    total side rs = total side rs' :=
  (h.map _).sum_eq

/-- The net is the buys less the sells. -/
lemma net_eq_sub (rs : List Reservation) : net rs = total .buy rs - total .sell rs := by
  induction rs with
  | nil => rfl
  | cons r rs ih =>
    simp only [total] at ih
    rw [net_cons, ih]
    cases hside : r.side <;> simp [total, hside] <;> omega

lemma total_nonneg (side : Side) {rs : List Reservation} (h : ∀ r ∈ rs, 0 < r.qty) :
    0 ≤ total side rs := by
  apply List.sum_nonneg
  intro x hx
  obtain ⟨r, hr, rfl⟩ := List.mem_map.mp hx
  split_ifs
  · exact (h r hr).le
  · exact le_rfl

/-- A part of some orders leaves a rest. -/
lemma exists_rest {part rs : List Reservation} (hsub : part.Subperm rs) :
    ∃ rest, rs.Perm (part ++ rest) := by
  obtain ⟨l, hl, hsub⟩ := hsub
  obtain ⟨rest, hrest⟩ := hsub.exists_perm_append
  exact ⟨rest, hrest.trans (hl.append_right rest)⟩

/-- A part of some orders has no more of a side than all of them. -/
lemma total_le_of_subperm (side : Side) {part rs : List Reservation} (h : ∀ r ∈ rs, 0 < r.qty)
    (hsub : part.Subperm rs) : total side part ≤ total side rs := by
  obtain ⟨rest, hperm⟩ := exists_rest hsub
  have hrest : 0 ≤ total side rest :=
    total_nonneg side fun r hr => h r (hperm.mem_iff.mpr (List.mem_append_right part hr))
  have hsum : total side rs = total side part + total side rest := by
    rw [total_perm side hperm]
    simp [total]
  omega

/-- The orders of one side have the whole quantity of this side and none of the other. -/
lemma total_filter (side side' : Side) (rs : List Reservation) :
    total side' (rs.filter fun r => r.side = side) = if side' = side then total side rs else 0 := by
  induction rs with
  | nil => simp [total]
  | cons r rs ih =>
    simp only [total] at ih ⊢
    by_cases hr : r.side = side
    · rw [List.filter_cons_of_pos (by simpa using hr), List.map_cons, List.sum_cons, ih]
      by_cases hs : side' = side
      · simp [hs, hr]
      · have : side ≠ side' := fun h => hs h.symm
        simp [hs, hr, this]
    · rw [List.filter_cons_of_neg (by simpa using hr), ih]
      simp [hr]

end Reservation

/-- The calls on the instrument. -/
inductive Reservation.Call where
  | reserve (r : Reservation) (price : ℤ)
  | fill (r : Reservation)
  | cancel (r : Reservation)
  deriving DecidableEq, Repr

/-- The limits, with the reservations that were accepted and not cancelled. -/
structure Ledger where
  limits : PositionLimits
  live : List Reservation

namespace Ledger

open Reservation

/-- New limits without reservations. -/
def init (maxNetQty maxNotional : ℤ) : Ledger where
  limits := .init maxNetQty maxNotional
  live := []

/-- A call on the instrument `id`. -/
def step (id : ℕ) (l : Ledger) : Call → Ledger
  | .reserve r price =>
    { limits := (l.limits.checkAndReserve id r.side r.qty price).1
      live := if (l.limits.checkAndReserve id r.side r.qty price).2 then l.live ++ [r] else l.live }
  | .fill r => { l with limits := l.limits.onFill id r.side r.qty }
  | .cancel r =>
    { limits := l.limits.onCancel id r.side r.qty
      live := l.live.erase r }

/-- Quantities are positive, and a cancel returns a reservation that was accepted and not yet
cancelled. -/
def Allowed (l : Ledger) : Call → Prop
  | .reserve r _ => 0 < r.qty
  | .fill _ => True
  | .cancel r => r ∈ l.live

/-- The slot is within the limits. -/
def InLimits (id : ℕ) (l : Ledger) : Prop :=
  -l.limits.maxNetQty ≤ l.limits.getNetQty id ∧ l.limits.getNetQty id ≤ l.limits.maxNetQty

instance (l : Ledger) : DecidablePred l.Allowed
  | .reserve r _ => inferInstanceAs (Decidable (0 < r.qty))
  | .fill _ => inferInstanceAs (Decidable True)
  | .cancel r => inferInstanceAs (Decidable (r ∈ l.live))

instance (id : ℕ) (l : Ledger) : Decidable (l.InLimits id) :=
  inferInstanceAs (Decidable (_ ∧ _))

/-- The slot is the net of the reservations. -/
structure Inv (id : ℕ) (maxNetQty : ℤ) (l : Ledger) : Prop where
  getNetQty : l.limits.getNetQty id = net l.live
  maxNetQty : l.limits.maxNetQty = maxNetQty
  qty_pos : ∀ r ∈ l.live, 0 < r.qty
  live_of_le : maxInstruments ≤ id → l.live = []

lemma inv_init (id : ℕ) (maxNetQty maxNotional : ℤ) :
    Inv id maxNetQty (init maxNetQty maxNotional) where
  getNetQty := by simp [init]
  maxNetQty := rfl
  qty_pos := by simp [init]
  live_of_le _ := rfl

/-- The net of the reservations once one of them was returned. -/
lemma net_erase {l : Ledger} {r : Reservation} (hr : r ∈ l.live) :
    net (l.live.erase r) = net l.live - r.side.signed r.qty := by
  rw [net_perm (List.perm_cons_erase hr), net_cons]
  omega

/-- Every call keeps the slot and the reservations in step. -/
lemma Inv.step {id : ℕ} {m : ℤ} {l : Ledger} (h : Inv id m l) {c : Call} (hc : l.Allowed c) :
    Inv id m (l.step id c) := by
  cases c with
  | reserve r price =>
    have hget := l.limits.getNetQty_checkAndReserve id r.side r.qty price id
    simp only [and_true] at hget
    refine ⟨?_, ?_, ?_, ?_⟩
    · simp only [Ledger.step, PositionLimits.checkAndReserve_snd, decide_eq_true_eq]
      rw [hget, h.getNetQty]
      split_ifs <;> simp
    · simp [Ledger.step, h.maxNetQty]
    · intro x hx
      simp only [Ledger.step] at hx
      split_ifs at hx
      · rcases List.mem_append.mp hx with hx | hx
        · exact h.qty_pos x hx
        · rw [List.mem_singleton.mp hx]
          exact hc
      · exact h.qty_pos x hx
    · intro hid
      have hadm : ¬l.limits.Admits id r.side r.qty price := fun hadm => by
        have := hadm.1
        omega
      simp [Ledger.step, PositionLimits.checkAndReserve_of_not_admits hadm, h.live_of_le hid]
  | fill r => exact ⟨h.getNetQty, h.maxNetQty, h.qty_pos, h.live_of_le⟩
  | cancel r =>
    have hr : r ∈ l.live := hc
    have hid : id < maxInstruments := by
      by_contra hid
      rw [h.live_of_le (by omega)] at hr
      simp at hr
    refine ⟨?_, ?_, ?_, fun hid' => absurd hid (by omega)⟩
    · simp only [Ledger.step]
      rw [PositionLimits.getNetQty_onCancel _ hid, h.getNetQty, net_erase hr]
    · simp [Ledger.step, h.maxNetQty]
    · exact fun x hx => h.qty_pos x (List.mem_of_mem_erase hx)

/-- The ledger after some calls on the instrument. -/
def after (id : ℕ) (maxNetQty maxNotional : ℤ) (calls : List Call) : Ledger :=
  Transition.run (step id) (init maxNetQty maxNotional) calls

/-! ## Cancels -/

/-- Returning a reservation is covered when the open orders on the other side exceed the remaining
ones on its own side by no more than the limit. -/
def Covered (l : Ledger) : Call → Prop
  | .cancel r =>
    match r.side with
    | .buy => total .sell l.live - total .buy (l.live.erase r) ≤ l.limits.maxNetQty
    | .sell => total .buy l.live - total .sell (l.live.erase r) ≤ l.limits.maxNetQty
  | _ => True

instance (l : Ledger) : DecidablePred l.Covered
  | .cancel ⟨.buy, qty⟩ => inferInstanceAs (Decidable
      (total .sell l.live - total .buy (l.live.erase ⟨.buy, qty⟩) ≤ l.limits.maxNetQty))
  | .cancel ⟨.sell, qty⟩ => inferInstanceAs (Decidable
      (total .buy l.live - total .sell (l.live.erase ⟨.sell, qty⟩) ≤ l.limits.maxNetQty))
  | .reserve _ _ | .fill _ => inferInstanceAs (Decidable True)

/-- The quantity of a side once a reservation was returned. -/
private lemma total_erase {l : Ledger} {r : Reservation} (hr : r ∈ l.live) (side : Side) :
    total side l.live = total side (l.live.erase r) + if r.side = side then r.qty else 0 := by
  rw [total_perm side (List.perm_cons_erase hr)]
  simp [total, add_comm]

/-- A call that does not cancel changes nothing, or moves the slot to a value within the limits. -/
private lemma step_eq_or_inLimits (id : ℕ) (l : Ledger) {c : Call} (hc : ∀ r, c ≠ .cancel r) :
    l.step id c = l ∨ (l.step id c).InLimits id := by
  cases c with
  | reserve r price =>
    by_cases hadm : l.limits.Admits id r.side r.qty price
    · right
      have hget := l.limits.getNetQty_checkAndReserve id r.side r.qty price id
      rw [if_pos ⟨hadm, rfl⟩] at hget
      simp only [InLimits, Ledger.step, PositionLimits.maxNetQty_checkAndReserve, hget]
      exact hadm.2.2
    · left
      simp [Ledger.step, PositionLimits.checkAndReserve_of_not_admits hadm]
  | fill r => exact Or.inl rfl
  | cancel r => exact absurd rfl (hc r)

/-- A call that does not cancel keeps the slot within the limits. -/
private lemma InLimits.step_of_not_cancel {id : ℕ} {l : Ledger} (h : l.InLimits id) {c : Call}
    (hc : ∀ r, c ≠ .cancel r) : (l.step id c).InLimits id := by
  rcases step_eq_or_inLimits id l hc with heq | hin
  · rw [heq]
    exact h
  · exact hin

/-- A cancel keeps the slot within the limits exactly when it is covered: on the one side the slot
moves away from its limit, on the other side the cover is what is needed. -/
private lemma inLimits_cancel_iff {id : ℕ} {m : ℤ} {l : Ledger} (hl : l.Inv id m)
    (h : l.InLimits id) {r : Reservation} (hr : r ∈ l.live) :
    (l.step id (.cancel r)).InLimits id ↔ l.Covered (.cancel r) := by
  have hnext := (hl.step (c := .cancel r) hr).getNetQty
  have hpos := hl.qty_pos r hr
  have hbuy := total_erase hr .buy
  have hsell := total_erase hr .sell
  obtain ⟨hlow, hhigh⟩ := h
  rw [hl.getNetQty, net_eq_sub] at hlow hhigh
  have hmax : (l.step id (.cancel r)).limits.maxNetQty = l.limits.maxNetQty := by
    simp [Ledger.step]
  have hlive : (l.step id (.cancel r)).live = l.live.erase r := rfl
  rw [InLimits, hnext, hmax, hlive, net_eq_sub]
  cases hside : r.side <;>
    simp only [Covered, hside, reduceCtorEq, if_true, if_false] at * <;>
    omega

/-- Without a limit that is not negative nothing is accepted, and the slot is not within it. -/
private lemma not_inLimits_of_neg {id : ℕ} {maxNetQty maxNotional : ℤ} (hneg : maxNetQty < 0)
    {c : Call} (hc : (init maxNetQty maxNotional).Allowed c) :
    ¬((init maxNetQty maxNotional).step id c).InLimits id := by
  have hget : ((init maxNetQty maxNotional).step id c).limits.getNetQty id = 0 := by
    cases c with
    | reserve r price =>
      have hadm : ¬(PositionLimits.init maxNetQty maxNotional).Admits id r.side r.qty price := by
        rintro ⟨-, -, hlow, hhigh⟩
        simp only [PositionLimits.init] at hlow hhigh
        omega
      simp [step, init, PositionLimits.checkAndReserve_of_not_admits hadm]
    | fill r => simp [step, init]
    | cancel r => simp [Allowed, init] at hc
  have hmax : ((init maxNetQty maxNotional).step id c).limits.maxNetQty = maxNetQty := by
    cases c <;> simp [step, init, PositionLimits.init]
  rintro ⟨hlow, hhigh⟩
  omega

/-- **Reservations with cancels.**  The slot stays within the limits after every call exactly when
the limit is not negative and every cancel is covered. -/
theorem within_limits_iff (maxNetQty maxNotional : ℤ) (id : ℕ) (calls : List Call)
    (hcalls : Transition.Admissible (step id) Allowed (init maxNetQty maxNotional) calls) :
    (∀ early c, early ++ [c] <+: calls →
        (after id maxNetQty maxNotional (early ++ [c])).InLimits id) ↔
      (calls ≠ [] → 0 ≤ maxNetQty) ∧
        Transition.Admissible (step id) Covered (init maxNetQty maxNotional) calls := by
  by_cases hmax : 0 ≤ maxNetQty
  · have hinit : (init maxNetQty maxNotional).InLimits id := by
      have hget : (init maxNetQty maxNotional).limits.getNetQty id = 0 :=
        PositionLimits.getNetQty_init ..
      have hm : (init maxNetQty maxNotional).limits.maxNetQty = maxNetQty := rfl
      rw [InLimits, hget, hm]
      omega
    have hfirst := Transition.forall_prefix_iff_admissible (D := Covered)
      (P := fun l => l.Inv id maxNetQty ∧ l.InLimits id) (G := InLimits id)
      (fun l h => h.2) ?_ ?_ hcalls ⟨inv_init id maxNetQty maxNotional, hinit⟩
    · rw [← hfirst]
      constructor
      · intro h
        refine ⟨fun _ => hmax, ?_⟩
        intro bs hbs
        rcases List.eq_nil_or_concat' bs with rfl | ⟨early, c, rfl⟩
        · exact hinit
        · exact h early c hbs
      · intro h early c hpre
        exact h.2 _ hpre
    · rintro l c hc hcov ⟨hinv, hin⟩
      refine ⟨hinv.step hc, ?_⟩
      cases c with
      | cancel r => exact (inLimits_cancel_iff hinv hin hc).mpr hcov
      | reserve r price => exact hin.step_of_not_cancel (by simp)
      | fill r => exact hin.step_of_not_cancel (by simp)
    · rintro l c hc hcov ⟨hinv, hin⟩
      cases c with
      | cancel r => exact fun h => hcov ((inLimits_cancel_iff hinv hin hc).mp h)
      | reserve r price => exact absurd trivial hcov
      | fill r => exact absurd trivial hcov
  · cases calls with
    | nil => simp
    | cons c calls =>
      apply iff_of_false
      · intro h
        exact not_inLimits_of_neg (by omega) hcalls.1
          (h [] c (List.cons_prefix_cons.mpr ⟨rfl, List.nil_prefix⟩))
      · intro h
        exact hmax (h.1 (List.cons_ne_nil c calls))

/-- A buy of 100 and a sell of 40 on instrument 42, and the cancel of the buy. -/
def coveredCancel : List Call :=
  [.reserve ⟨.buy, 100⟩ 1, .reserve ⟨.sell, 40⟩ 1, .cancel ⟨.buy, 100⟩]

theorem within_limits_iff_coveredCancel : (after 42 100 1000 coveredCancel).InLimits 42 :=
  (within_limits_iff 100 1000 42 coveredCancel (by decide)).mpr
    (by decide)
    [.reserve ⟨.buy, 100⟩ 1, .reserve ⟨.sell, 40⟩ 1] (.cancel ⟨.buy, 100⟩) (List.prefix_refl _)

/-- A sell of 200 is let through against a buy of 100, and then the buy is cancelled. -/
def uncoveredCancel : List Call :=
  [.reserve ⟨.buy, 100⟩ 1, .reserve ⟨.sell, 200⟩ 1, .cancel ⟨.buy, 100⟩]

/-- With a limit of 100 the cancel of the buy leaves the slot at -200. -/
theorem not_inLimits_uncoveredCancel :
    Transition.Admissible (step 42) Allowed (init 100 1000) uncoveredCancel ∧
      (after 42 100 1000 uncoveredCancel).limits.getNetQty 42 = -200 ∧
      ¬(after 42 100 1000 uncoveredCancel).InLimits 42 := by
  decide

/-! ## Executions -/

/-- A call that places an order of positive quantity or reports an execution. -/
def Placing : Call → Prop
  | .reserve r _ => 0 < r.qty
  | .fill _ => True
  | .cancel _ => False

instance : DecidablePred Placing
  | .reserve r _ => inferInstanceAs (Decidable (0 < r.qty))
  | .fill _ => inferInstanceAs (Decidable True)
  | .cancel _ => inferInstanceAs (Decidable False)

lemma Placing.allowed {c : Call} (h : Placing c) (l : Ledger) : l.Allowed c := by
  cases c with
  | reserve r price => exact h
  | fill r => trivial
  | cancel r => exact h.elim

lemma Placing.ne_cancel {c : Call} (h : Placing c) (r : Reservation) : c ≠ .cancel r := by
  rintro rfl
  exact h

/-- The ledger after calls that do not cancel. -/
private lemma after_placing (id : ℕ) (maxNetQty maxNotional : ℤ) {calls : List Call}
    (hcalls : ∀ c ∈ calls, Placing c) :
    (after id maxNetQty maxNotional calls).Inv id maxNetQty ∧
      ((after id maxNetQty maxNotional calls).live ≠ [] →
        (after id maxNetQty maxNotional calls).InLimits id) := by
  refine Transition.invariant_run (C := fun _ c => Placing c)
    (P := fun l : Ledger => l.Inv id maxNetQty ∧ (l.live ≠ [] → l.InLimits id)) ?_
    (Transition.admissible_of_forall _ (fun c hc _ => hcalls c hc) _)
    ⟨inv_init id maxNetQty maxNotional, fun h => absurd rfl h⟩
  rintro l c hc ⟨hinv, hin⟩
  constructor
  · exact hinv.step (hc.allowed l)
  · intro hlive
    rcases step_eq_or_inLimits id l hc.ne_cancel with heq | hin'
    · rw [heq] at hlive ⊢
      exact hin hlive
    · exact hin'

/-- **Executions and the limit.**  When some accepted orders execute, in any order, their net
together with the net of the orders still open is within the limits.  The net of what was executed
is within them for every choice of accepted orders exactly when neither the accepted buys nor the
accepted sells exceed the limit in total. -/
theorem executed_within_limits_iff (maxNetQty maxNotional : ℤ) (id : ℕ) (calls : List Call)
    (hcalls : ∀ c ∈ calls, Placing c) :
    (∀ executed still : List Reservation, executed ++ still ≠ [] →
      (executed ++ still).Perm (after id maxNetQty maxNotional calls).live →
        -maxNetQty ≤ net executed + net still ∧ net executed + net still ≤ maxNetQty) ∧
    ((∀ executed : List Reservation,
        executed.Subperm (after id maxNetQty maxNotional calls).live →
          -maxNetQty ≤ net executed ∧ net executed ≤ maxNetQty) ↔
      total .buy (after id maxNetQty maxNotional calls).live ≤ maxNetQty ∧
        total .sell (after id maxNetQty maxNotional calls).live ≤ maxNetQty) := by
  obtain ⟨hinv, hin⟩ := after_placing id maxNetQty maxNotional hcalls
  generalize after id maxNetQty maxNotional calls = l at hinv hin
  refine ⟨?_, ?_, ?_⟩
  · intro executed still hne hperm
    have hlive : l.live ≠ [] := fun hnil => hne (List.perm_nil.mp (hnil ▸ hperm))
    have hlimits := hin hlive
    rwa [InLimits, hinv.maxNetQty, hinv.getNetQty, ← net_perm hperm, net_append] at hlimits
  · intro h
    -- the worst choices are all the buys and all the sells
    have hbuys := h _ (List.filter_sublist (p := fun r => r.side = .buy)).subperm
    have hsells := h _ (List.filter_sublist (p := fun r => r.side = .sell)).subperm
    simp only [net_eq_sub, total_filter, reduceCtorEq, if_true, if_false] at hbuys hsells
    omega
  · intro h executed hsub
    have hpos : ∀ r ∈ executed, 0 < r.qty := fun r hr => hinv.qty_pos r (hsub.subset hr)
    have hbuy := total_le_of_subperm .buy hinv.qty_pos hsub
    have hsell := total_le_of_subperm .sell hinv.qty_pos hsub
    have hbuy' := total_nonneg .buy hpos
    have hsell' := total_nonneg .sell hpos
    rw [net_eq_sub]
    omega

/-- A buy of 60 and a sell of 80 on instrument 42. -/
def balancedOrders : List Call :=
  [.reserve ⟨.buy, 60⟩ 1, .reserve ⟨.sell, 80⟩ 1]

theorem executed_within_limits_iff_balancedOrders :
    -100 ≤ net [⟨.sell, 80⟩] ∧ net [⟨.sell, 80⟩] ≤ 100 :=
  (executed_within_limits_iff 100 1000 42 balancedOrders (by decide)).2.mpr (by decide) _
    (List.singleton_subperm_iff.mpr (by decide))

/-- A sell of 200 is let through against a buy of 100 that is still open. -/
def nettedOrders : List Call :=
  [.reserve ⟨.buy, 100⟩ 1, .reserve ⟨.sell, 200⟩ 1]

/-- With a limit of 100 both orders are accepted, and the sell may execute alone: the executed
position is then -200. -/
theorem executed_not_within_limits_nettedOrders :
    (∀ c ∈ nettedOrders, Placing c) ∧
      [⟨.sell, 200⟩].Subperm (after 42 100 1000 nettedOrders).live ∧
      ¬(-100 ≤ net [⟨.sell, 200⟩] ∧ net [⟨.sell, 200⟩] ≤ 100) :=
  ⟨by decide, List.singleton_subperm_iff.mpr (by decide), by decide⟩

end Ledger

end QuantTrade
