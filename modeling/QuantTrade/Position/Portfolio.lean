import Mathlib.Algebra.BigOperators.Group.Finset.Piecewise
import Mathlib.Algebra.BigOperators.Intervals
import QuantTrade.Position.PnlCalculator

/-!
# Profit and loss of a portfolio

The sums over the instruments in `src/position/pnl_calculator.cpp`.  The caller hands over prices
for the first `n` instruments; what was realized is summed up over all of them.  After any fills the
total is what each fill of the first `n` instruments has gained at the marks, and what the others
have realized, up to the truncations of the average costs (`portfolio_accounting`).
-/

namespace QuantTrade

namespace PnlCalculator

open PositionManager

/-- `calc_total_unrealized_pnl`. -/
def calcTotalUnrealizedPnl (pm : PositionManager) (markPrices : ℕ → ℤ) (n : ℕ) : ℤ :=
  let limit := if n ≤ maxInstruments then n else maxInstruments
  (List.range limit).foldl (fun total i => total + calcUnrealizedPnl pm i (markPrices i)) 0

/-- `calc_total_pnl`. -/
def calcTotalPnl (pm : PositionManager) (markPrices : ℕ → ℤ) (n : ℕ) : ℤ :=
  pm.getTotalRealizedPnl + calcTotalUnrealizedPnl pm markPrices n

/-- The fill is of an instrument that the position manager has, and of the first `n`. -/
def Marked (n : ℕ) (fill : FillEvent) : Prop :=
  fill.instrumentId < min n maxInstruments

instance (n : ℕ) : DecidablePred (Marked n) :=
  fun _ => inferInstanceAs (Decidable (_ < _))

/-- What a fill has gained at the mark price of its instrument. -/
def markedProfit (markPrices : ℕ → ℤ) (n : ℕ) (fill : FillEvent) : ℤ :=
  if Marked n fill then
    fill.side.signed ((markPrices fill.instrumentId - fill.fillPrice) * fill.fillQty)
  else 0

/-- What is lost or won by the averaging division of a fill. -/
def rounding (n : ℕ) (pm : PositionManager) (fill : FillEvent) : ℤ :=
  if Marked n fill then averagingError fill.instrumentId pm fill else 0

/-- The size of the position after a fill that increases it, less one. -/
def roundingBound (n : ℕ) (pm : PositionManager) (fill : FillEvent) : ℤ :=
  if Marked n fill ∧ Increases (pm.slots fill.instrumentId) fill then
    |(pm.onFill fill).getNetQty fill.instrumentId| - 1
  else 0

variable {markPrices : ℕ → ℤ} {n : ℕ} {pm : PositionManager} {fill : FillEvent}

lemma calcTotalUnrealizedPnl_eq_sum (pm : PositionManager) (markPrices : ℕ → ℤ) (n : ℕ) :
    calcTotalUnrealizedPnl pm markPrices n =
      ∑ i ∈ Finset.range (min n maxInstruments), calcUnrealizedPnl pm i (markPrices i) := by
  unfold calcTotalUnrealizedPnl
  rw [← min_def]
  dsimp only
  induction min n maxInstruments with
  | zero => rfl
  | succ n ih =>
    rw [List.range_succ, List.foldl_append, ih, Finset.sum_range_succ, List.foldl_cons,
      List.foldl_nil]

/-- The total is the equity of the instruments with a mark price and what the others realized. -/
lemma calcTotalPnl_eq_sum (pm : PositionManager) (markPrices : ℕ → ℤ) (n : ℕ) :
    calcTotalPnl pm markPrices n =
      ∑ i ∈ Finset.range (min n maxInstruments), equity (pm.slots i) (markPrices i) +
        ∑ i ∈ Finset.Ico n maxInstruments, pm.getRealizedPnl i := by
  have hsplit : pm.getTotalRealizedPnl =
      ∑ i ∈ Finset.range (min n maxInstruments), pm.getRealizedPnl i +
        ∑ i ∈ Finset.Ico n maxInstruments, pm.getRealizedPnl i := by
    rw [getTotalRealizedPnl_eq_sum]
    have hall : ∑ i ∈ Finset.range maxInstruments, (pm.slots i).realizedPnl =
        ∑ i ∈ Finset.range maxInstruments, pm.getRealizedPnl i :=
      Finset.sum_congr rfl fun i hi => (getRealizedPnl_of_lt pm (Finset.mem_range.mp hi)).symm
    rw [hall]
    rcases le_total n maxInstruments with hn | hn
    · rw [min_eq_left hn, Finset.range_eq_Ico, Finset.range_eq_Ico]
      exact (Finset.sum_Ico_consecutive _ n.zero_le hn).symm
    · rw [min_eq_right hn, Finset.Ico_eq_empty_of_le hn, Finset.sum_empty, add_zero]
  have hequity : ∑ i ∈ Finset.range (min n maxInstruments), equity (pm.slots i) (markPrices i) =
      ∑ i ∈ Finset.range (min n maxInstruments),
        (pm.getRealizedPnl i + calcUnrealizedPnl pm i (markPrices i)) := by
    refine Finset.sum_congr rfl fun i hi => ?_
    have hlt := (Finset.mem_range.mp hi).trans_le (min_le_right ..)
    exact (getRealizedPnl_add_calcUnrealizedPnl pm hlt _).symm
  rw [calcTotalPnl, calcTotalUnrealizedPnl_eq_sum, hsplit, hequity, Finset.sum_add_distrib,
    add_right_comm]

/-- **One fill.**  The equity of the marked instruments grows by what the fill has gained at the
marks. -/
lemma sum_equity_onFill (hq : 0 < fill.fillQty) :
    ∑ i ∈ Finset.range (min n maxInstruments), equity ((pm.onFill fill).slots i) (markPrices i) =
      ∑ i ∈ Finset.range (min n maxInstruments), equity (pm.slots i) (markPrices i) +
        (markedProfit markPrices n fill + rounding n pm fill) := by
  have hslot : ∀ i ∈ Finset.range (min n maxInstruments),
      equity ((pm.onFill fill).slots i) (markPrices i) =
        equity (pm.slots i) (markPrices i) +
          if fill.instrumentId = i then markedProfit markPrices n fill + rounding n pm fill
          else 0 := by
    intro i hi
    have hlt := Finset.mem_range.mp hi
    rw [slots_onFill pm fill (hlt.trans_le (min_le_right ..))]
    split_ifs with hid
    · have hmarked : Marked n fill := by rwa [Marked, hid]
      rw [equity_onFill _ hq, markedProfit, rounding, if_pos hmarked, if_pos hmarked,
        averagingError, hid, sub_mul]
      simp only [true_and, add_assoc]
    · rw [add_zero]
  rw [Finset.sum_congr rfl hslot, Finset.sum_add_distrib, Finset.sum_ite_eq]
  split_ifs with hmem
  · rfl
  · have hnot : ¬Marked n fill := fun h => hmem (Finset.mem_range.mpr h)
    rw [markedProfit, rounding, if_neg hnot, if_neg hnot, add_zero, add_zero, add_zero]

/-- The remainder is smaller than the position after the fill, whatever the average cost is. -/
lemma abs_averagingRemainder_lt {slot : Slot} (hq : 0 < fill.fillQty) (hinc : Increases slot fill) :
    |averagingRemainder slot fill| < |(slot.onFill fill).netQty| := by
  rw [Slot.netQty_onFill]
  have htmod : ∀ (a : ℤ) {b : ℤ}, 0 < b → |a.tmod b| < b := fun a b hb =>
    abs_lt.mpr ⟨Int.lt_tmod_of_pos a hb, Int.tmod_lt_of_pos a hb⟩
  cases hside : fill.side with
  | buy =>
    have hcur : 0 ≤ slot.netQty := by simpa [Increases, hside] using hinc
    have hnew : 0 < slot.netQty + fill.fillQty := by omega
    simp only [averagingRemainder, hside, Side.signed_buy, abs_of_pos hnew]
    exact htmod _ hnew
  | sell =>
    have hcur : slot.netQty ≤ 0 := by simpa [Increases, hside] using hinc
    have hnew : slot.netQty - fill.fillQty < 0 := by omega
    simp only [averagingRemainder, hside, Side.signed_sell, ← sub_eq_add_neg, abs_of_neg hnew]
    exact htmod _ (by omega)

/-- The averaging division of a fill loses less than the position after it. -/
lemma abs_rounding_le (hq : 0 < fill.fillQty) :
    |rounding n pm fill| ≤ roundingBound n pm fill := by
  unfold rounding roundingBound averagingError
  by_cases hmarked : Marked n fill
  · by_cases hinc : Increases (pm.slots fill.instrumentId) fill
    · have hid : fill.instrumentId < maxInstruments := hmarked.trans_le (min_le_right ..)
      simp only [hmarked, hinc, and_self, if_true]
      rw [getNetQty, if_neg (by omega), slots_onFill pm fill hid, if_pos rfl]
      have hlt := abs_averagingRemainder_lt hq hinc
      cases hside : fill.side with
      | buy =>
        rw [Side.signed_buy]
        omega
      | sell =>
        rw [Side.signed_sell, abs_neg]
        omega
    · simp [hinc]
  · simp [hmarked]

/-- **Portfolio accounting.**  After any fills of any instruments with positive quantities, for any
marks and any number of them, as long as no number overflows: the total profit is what each fill of
a marked instrument has gained at its mark, and what the other instruments have realized, and the
remainders of the averaging divisions, which are smaller than the positions after their fills. -/
theorem portfolio_accounting {fills : List FillEvent} (hqty : ∀ f ∈ fills, 0 < f.fillQty)
    (markPrices : ℕ → ℤ) (n : ℕ) :
    calcTotalPnl (after fills) markPrices n =
      (fills.map (markedProfit markPrices n)).sum +
        ∑ i ∈ Finset.Ico n maxInstruments, (after fills).getRealizedPnl i +
          Transition.sumAlong onFill (rounding n) init fills ∧
    |Transition.sumAlong onFill (rounding n) init fills| ≤
      Transition.sumAlong onFill (roundingBound n) init fills := by
  have hadmissible : Transition.Admissible onFill (fun _ f => 0 < f.fillQty) init fills :=
    Transition.admissible_of_forall _ (fun f hf _ => hqty f hf) _
  refine ⟨?_, Transition.abs_sumAlong_le (fun pm f hf => abs_rounding_le hf) hadmissible⟩
  have hrun := Transition.measure_run (P := fun _ => True)
    (m := fun pm => ∑ i ∈ Finset.range (min n maxInstruments), equity (pm.slots i) (markPrices i))
    (fun _ _ _ _ => trivial) (fun pm f hf _ => sum_equity_onFill hf) hadmissible trivial
  have hinit :
      ∑ i ∈ Finset.range (min n maxInstruments), equity (init.slots i) (markPrices i) = 0 :=
    Finset.sum_eq_zero fun i _ => by simp [equity, init]
  rw [hinit, zero_add, Transition.sumAlong_add, Transition.sumAlong_action] at hrun
  rw [calcTotalPnl_eq_sum, after, hrun, add_right_comm]

/-- Three units of instrument 0 are bought, and two of instrument 1 are bought and sold. -/
def twoInstruments : List FillEvent :=
  [{ instrumentId := 0, fillPrice := 10, fillQty := 1 },
    { instrumentId := 1, fillPrice := 7, fillQty := 2 },
    { instrumentId := 0, fillPrice := 11, fillQty := 2 },
    { instrumentId := 1, side := .sell, fillPrice := 9, fillQty := 2 }]

theorem portfolio_accounting_twoInstruments :
    calcTotalPnl (after twoInstruments) (fun _ => 20) maxInstruments = 28 + 4 + 2 := by
  have h := (portfolio_accounting (show ∀ f ∈ twoInstruments, 0 < f.fillQty by decide)
    (fun _ => 20) maxInstruments).1
  rw [h, Finset.Ico_self, Finset.sum_empty]
  decide +kernel

end PnlCalculator

end QuantTrade
