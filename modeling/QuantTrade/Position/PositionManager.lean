import Mathlib.Algebra.BigOperators.Group.Finset.Basic
import Mathlib.Algebra.Order.Group.Int
import Mathlib.Order.MinMax
import QuantTrade.Oms.Order

/-!
# The position manager

`PositionManager` of `src/position/position_manager.cpp`: per instrument the net quantity, the
average cost and the realized profit.  A fill in the direction of the position averages the cost
with the truncating division of the machine; a fill against it realizes a profit at the cost of the
position, and one that goes through zero opens the rest at its own price.
-/

namespace QuantTrade

/-- What is kept for an instrument. -/
structure PositionManager.Slot where
  netQty : ℤ := 0
  avgCost : ℤ := 0
  realizedPnl : ℤ := 0
  deriving DecidableEq, Repr

/-- The slots of all instruments; those from `maxInstruments` on are not used. -/
structure PositionManager where
  slots : ℕ → PositionManager.Slot

namespace PositionManager

/-- A position manager without positions. -/
def init : PositionManager where
  slots _ := {}

/-- The body of `on_fill` on the slot of the instrument. -/
def Slot.onFill (slot : Slot) (fill : FillEvent) : Slot :=
  let curQty := slot.netQty
  let curAvg := slot.avgCost
  let fillQty := fill.fillQty
  let fillPx := fill.fillPrice
  match fill.side with
  | .buy =>
    let newQty := curQty + fillQty
    if curQty ≥ 0 then
      -- A: flat or long, the position grows
      let newAvg := if newQty > 0 then (curAvg * curQty + fillPx * fillQty).tdiv newQty else 0
      { slot with avgCost := newAvg, netQty := newQty }
    else
      -- B: short, the fill closes
      let absShort := -curQty
      let closeQty := if fillQty ≤ absShort then fillQty else absShort
      let pnlDelta := (curAvg - fillPx) * closeQty
      { netQty := newQty
        avgCost := if newQty > 0 then fillPx else if newQty = 0 then 0 else curAvg
        realizedPnl := slot.realizedPnl + pnlDelta }
  | .sell =>
    let newQty := curQty - fillQty
    if curQty ≤ 0 then
      -- C: flat or short, the position grows
      let newAvg :=
        if newQty < 0 then
          let absNew := -newQty
          let absCur := -curQty
          (curAvg * absCur + fillPx * fillQty).tdiv absNew
        else 0
      { slot with avgCost := newAvg, netQty := newQty }
    else
      -- D: long, the fill closes
      let closeQty := if fillQty ≤ curQty then fillQty else curQty
      let pnlDelta := (fillPx - curAvg) * closeQty
      { netQty := newQty
        avgCost := if newQty < 0 then fillPx else if newQty = 0 then 0 else curAvg
        realizedPnl := slot.realizedPnl + pnlDelta }

/-- `on_fill`. -/
def onFill (pm : PositionManager) (fill : FillEvent) : PositionManager :=
  if fill.instrumentId ≥ maxInstruments then pm
  else
    { slots :=
        Function.update pm.slots fill.instrumentId ((pm.slots fill.instrumentId).onFill fill) }

/-- `get_net_qty`. -/
def getNetQty (pm : PositionManager) (id : ℕ) : ℤ :=
  if id ≥ maxInstruments then 0 else (pm.slots id).netQty

/-- `get_avg_cost`. -/
def getAvgCost (pm : PositionManager) (id : ℕ) : ℤ :=
  if id ≥ maxInstruments then 0 else (pm.slots id).avgCost

/-- `get_realized_pnl`. -/
def getRealizedPnl (pm : PositionManager) (id : ℕ) : ℤ :=
  if id ≥ maxInstruments then 0 else (pm.slots id).realizedPnl

/-- `get_total_realized_pnl`: the sum over all slots. -/
def getTotalRealizedPnl (pm : PositionManager) : ℤ :=
  (List.range maxInstruments).foldl (fun total i => total + (pm.slots i).realizedPnl) 0

/-! ## What a fill does -/

section Branches

variable {slot : Slot} {fill : FillEvent}

/-- A: a buy that grows a long or opens one. -/
lemma Slot.onFill_buy_grow (hside : fill.side = .buy) (hcur : 0 ≤ slot.netQty)
    (hq : 0 < fill.fillQty) :
    slot.onFill fill =
      { slot with
        netQty := slot.netQty + fill.fillQty
        avgCost := (slot.avgCost * slot.netQty + fill.fillPrice * fill.fillQty).tdiv
          (slot.netQty + fill.fillQty) } := by
  have hnew : slot.netQty + fill.fillQty > 0 := by omega
  simp only [Slot.onFill, hside, ge_iff_le, hcur, hnew, if_true]

/-- B: a buy that closes a short, all of it or a part, and opens a long with the rest. -/
lemma Slot.onFill_buy_close (hside : fill.side = .buy) (hcur : slot.netQty < 0) :
    slot.onFill fill =
      { netQty := slot.netQty + fill.fillQty
        avgCost :=
          if 0 < slot.netQty + fill.fillQty then fill.fillPrice
          else if slot.netQty + fill.fillQty = 0 then 0 else slot.avgCost
        realizedPnl := slot.realizedPnl +
          (slot.avgCost - fill.fillPrice) * min fill.fillQty (-slot.netQty) } := by
  simp only [Slot.onFill, hside, ge_iff_le, not_le.mpr hcur, if_false, gt_iff_lt, ← min_def]

/-- C: a sell that grows a short or opens one. -/
lemma Slot.onFill_sell_grow (hside : fill.side = .sell) (hcur : slot.netQty ≤ 0)
    (hq : 0 < fill.fillQty) :
    slot.onFill fill =
      { slot with
        netQty := slot.netQty - fill.fillQty
        avgCost := (slot.avgCost * -slot.netQty + fill.fillPrice * fill.fillQty).tdiv
          (-(slot.netQty - fill.fillQty)) } := by
  have hnew : slot.netQty - fill.fillQty < 0 := by omega
  simp only [Slot.onFill, hside, hcur, hnew, if_true]

/-- D: a sell that closes a long, all of it or a part, and opens a short with the rest. -/
lemma Slot.onFill_sell_close (hside : fill.side = .sell) (hcur : 0 < slot.netQty) :
    slot.onFill fill =
      { netQty := slot.netQty - fill.fillQty
        avgCost :=
          if slot.netQty - fill.fillQty < 0 then fill.fillPrice
          else if slot.netQty - fill.fillQty = 0 then 0 else slot.avgCost
        realizedPnl := slot.realizedPnl +
          (fill.fillPrice - slot.avgCost) * min fill.fillQty slot.netQty } := by
  simp only [Slot.onFill, hside, not_le.mpr hcur, if_false, ← min_def]

end Branches

/-- A fill acts on the slot of its instrument and on no other. -/
lemma slots_onFill (pm : PositionManager) (fill : FillEvent) {id : ℕ} (hid : id < maxInstruments) :
    (pm.onFill fill).slots id =
      if fill.instrumentId = id then (pm.slots id).onFill fill else pm.slots id := by
  unfold onFill
  split_ifs with hge heq heq
  · omega
  · rfl
  · simp [heq]
  · exact Function.update_of_ne (fun h => heq h.symm) _ _

/-- A fill moves the net quantity by its signed quantity, in every branch. -/
lemma Slot.netQty_onFill (slot : Slot) (fill : FillEvent) :
    (slot.onFill fill).netQty = slot.netQty + fill.side.signed fill.fillQty := by
  cases hside : fill.side <;> simp only [Slot.onFill, hside, Side.signed, ← sub_eq_add_neg] <;>
    split_ifs <;> rfl

/-- The net quantity of an instrument moves by the signed quantities of its own fills. -/
lemma getNetQty_onFill (pm : PositionManager) (fill : FillEvent) {id : ℕ}
    (hid : id < maxInstruments) :
    (pm.onFill fill).getNetQty id =
      pm.getNetQty id + if fill.instrumentId = id then fill.side.signed fill.fillQty else 0 := by
  rw [getNetQty, getNetQty, if_neg (by omega), if_neg (by omega), slots_onFill pm fill hid]
  split_ifs
  · exact Slot.netQty_onFill _ fill
  · rw [add_zero]

/-- The slot functions agree with the getters on the instruments there are. -/
lemma getRealizedPnl_of_lt (pm : PositionManager) {id : ℕ} (hid : id < maxInstruments) :
    pm.getRealizedPnl id = (pm.slots id).realizedPnl :=
  if_neg (by omega)

/-- The loop over the slots is a sum. -/
lemma getTotalRealizedPnl_eq_sum (pm : PositionManager) :
    pm.getTotalRealizedPnl = ∑ i ∈ Finset.range maxInstruments, (pm.slots i).realizedPnl := by
  unfold getTotalRealizedPnl
  induction maxInstruments with
  | zero => rfl
  | succ n ih =>
    rw [List.range_succ, List.foldl_append, ih, Finset.sum_range_succ, List.foldl_cons,
      List.foldl_nil]

/-- When one instrument only was traded, the total is what it realized. -/
lemma getTotalRealizedPnl_of_single {pm : PositionManager} {id : ℕ} (hid : id < maxInstruments)
    (h : ∀ i, i ≠ id → (pm.slots i).realizedPnl = 0) :
    pm.getTotalRealizedPnl = (pm.slots id).realizedPnl := by
  rw [getTotalRealizedPnl_eq_sum]
  exact Finset.sum_eq_single_of_mem id (Finset.mem_range.mpr hid) fun i _ hi => h i hi

end PositionManager

end QuantTrade
