import Mathlib.Logic.Function.Basic
import Mathlib.Tactic.SplitIfs
import QuantTrade.Common.Types

/-!
# Position limits

`PositionLimits` of `src/risk/position_limits.cpp`.  A slot per instrument holds the net quantity
of everything that was let through; `check_and_reserve` admits an order when neither its notional
nor the new net quantity exceeds its limit, `on_cancel` gives a reservation back without looking at
the limit, and `on_fill` does nothing.
-/

namespace QuantTrade

/-- The slots of all instruments and the two limits. -/
structure PositionLimits where
  slots : ℕ → ℤ
  maxNetQty : ℤ
  maxNotional : ℤ

namespace PositionLimits

/-- New limits with nothing reserved. -/
def init (maxNetQty maxNotional : ℤ) : PositionLimits where
  slots _ := 0
  maxNetQty := maxNetQty
  maxNotional := maxNotional

/-- `check_and_reserve`. -/
def checkAndReserve (pl : PositionLimits) (id : ℕ) (side : Side) (qty price : ℤ) :
    PositionLimits × Bool :=
  if id ≥ maxInstruments then (pl, false)
  else if price > 0 ∧ qty > 0 ∧ price * qty > pl.maxNotional then (pl, false)
  else
    let newQty := pl.slots id + side.signed qty
    if newQty > pl.maxNetQty ∨ newQty < -pl.maxNetQty then (pl, false)
    else ({ pl with slots := Function.update pl.slots id newQty }, true)

/-- `on_fill`: the reservation stands for the position already. -/
def onFill (pl : PositionLimits) (_id : ℕ) (_side : Side) (_fillQty : ℤ) : PositionLimits :=
  pl

/-- `on_cancel`: give the quantity back. -/
def onCancel (pl : PositionLimits) (id : ℕ) (side : Side) (qty : ℤ) : PositionLimits :=
  if id ≥ maxInstruments then pl
  else { pl with slots := Function.update pl.slots id (pl.slots id - side.signed qty) }

/-- `get_net_qty`. -/
def getNetQty (pl : PositionLimits) (id : ℕ) : ℤ :=
  if id ≥ maxInstruments then 0 else pl.slots id

/-! ## What the operations do -/

/-- The conditions under which an order is admitted. -/
def Admits (pl : PositionLimits) (id : ℕ) (side : Side) (qty price : ℤ) : Prop :=
  id < maxInstruments ∧ ¬(0 < price ∧ 0 < qty ∧ pl.maxNotional < price * qty) ∧
    -pl.maxNetQty ≤ pl.getNetQty id + side.signed qty ∧
    pl.getNetQty id + side.signed qty ≤ pl.maxNetQty

instance (pl : PositionLimits) (id : ℕ) (side : Side) (qty price : ℤ) :
    Decidable (pl.Admits id side qty price) :=
  inferInstanceAs (Decidable (_ ∧ _))

lemma checkAndReserve_of_admits {pl : PositionLimits} {id : ℕ} {side : Side} {qty price : ℤ}
    (h : pl.Admits id side qty price) :
    pl.checkAndReserve id side qty price =
      ({ pl with slots := Function.update pl.slots id (pl.slots id + side.signed qty) }, true) := by
  obtain ⟨hid, hnotional, hlow, hhigh⟩ := h
  rw [getNetQty, if_neg (by omega)] at hlow hhigh
  unfold checkAndReserve
  rw [if_neg (by omega), if_neg hnotional]
  exact if_neg (by omega)

lemma checkAndReserve_of_not_admits {pl : PositionLimits} {id : ℕ} {side : Side} {qty price : ℤ}
    (h : ¬pl.Admits id side qty price) : pl.checkAndReserve id side qty price = (pl, false) := by
  unfold checkAndReserve
  by_cases hid : id ≥ maxInstruments
  · rw [if_pos hid]
  · rw [if_neg hid]
    by_cases hnotional : price > 0 ∧ qty > 0 ∧ price * qty > pl.maxNotional
    · rw [if_pos hnotional]
    · rw [if_neg hnotional]
      refine if_pos ?_
      have hslot : pl.getNetQty id = pl.slots id := if_neg hid
      by_contra hin
      exact h ⟨by omega, hnotional, by omega, by omega⟩

/-- An order is let through exactly when it is admitted. -/
lemma checkAndReserve_snd (pl : PositionLimits) (id : ℕ) (side : Side) (qty price : ℤ) :
    (pl.checkAndReserve id side qty price).2 = decide (pl.Admits id side qty price) := by
  by_cases h : pl.Admits id side qty price
  · rw [checkAndReserve_of_admits h, decide_eq_true h]
  · rw [checkAndReserve_of_not_admits h, decide_eq_false h]

/-- An admitted order moves the slot of its instrument; nothing else happens. -/
lemma getNetQty_checkAndReserve (pl : PositionLimits) (id : ℕ) (side : Side) (qty price : ℤ)
    (i : ℕ) :
    (pl.checkAndReserve id side qty price).1.getNetQty i =
      pl.getNetQty i +
        if pl.Admits id side qty price ∧ id = i then side.signed qty else 0 := by
  by_cases h : pl.Admits id side qty price
  · rw [checkAndReserve_of_admits h]
    have hid := h.1
    simp only [getNetQty, h, true_and]
    by_cases hi : id = i
    · subst hi
      rw [if_neg (by omega), if_neg (by omega), if_pos rfl, Function.update_self]
    · rw [if_neg hi, Function.update_of_ne (fun heq => hi heq.symm), Int.add_zero]
  · rw [checkAndReserve_of_not_admits h, if_neg (fun hc => h hc.1), Int.add_zero]

/-- The limits are never changed. -/
@[simp] lemma maxNetQty_checkAndReserve (pl : PositionLimits) (id : ℕ) (side : Side)
    (qty price : ℤ) : (pl.checkAndReserve id side qty price).1.maxNetQty = pl.maxNetQty := by
  by_cases h : pl.Admits id side qty price
  · rw [checkAndReserve_of_admits h]
  · rw [checkAndReserve_of_not_admits h]

@[simp] lemma maxNetQty_onCancel (pl : PositionLimits) (id : ℕ) (side : Side) (qty : ℤ) :
    (pl.onCancel id side qty).maxNetQty = pl.maxNetQty := by
  unfold onCancel
  split_ifs <;> rfl

@[simp] lemma onFill_eq (pl : PositionLimits) (id : ℕ) (side : Side) (fillQty : ℤ) :
    pl.onFill id side fillQty = pl := rfl

@[simp] lemma getNetQty_init (maxNetQty maxNotional : ℤ) (i : ℕ) :
    (init maxNetQty maxNotional).getNetQty i = 0 :=
  ite_self 0

/-- A cancel on an instrument there is moves its slot back. -/
lemma getNetQty_onCancel (pl : PositionLimits) {id : ℕ} (hid : id < maxInstruments) (side : Side)
    (qty : ℤ) : (pl.onCancel id side qty).getNetQty id = pl.getNetQty id - side.signed qty := by
  have hge : ¬id ≥ maxInstruments := by omega
  simp only [onCancel, getNetQty, if_neg hge, Function.update_self]

end PositionLimits

end QuantTrade
