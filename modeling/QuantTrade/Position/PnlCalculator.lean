import Mathlib.Algebra.Order.Ring.Int
import Mathlib.Tactic.LinearCombination
import Mathlib.Tactic.Positivity
import Mathlib.Tactic.Ring
import QuantTrade.Library.Transition
import QuantTrade.Position.PositionManager

/-!
# Profit and loss

`PnlCalculator` of `src/position/pnl_calculator.cpp` marks a position to market.  Realized and
unrealized profit together are the cash that the fills moved plus the value of the position, up to
the remainders that the averaging divisions truncate (`position_accounting`): the branches that
close, flatten or turn a position are exact.
-/

namespace QuantTrade

namespace PnlCalculator

open PositionManager

/-- `calc_unrealized_pnl`. -/
def calcUnrealizedPnl (pm : PositionManager) (id : ℕ) (markPrice : ℤ) : ℤ :=
  if id ≥ maxInstruments then 0
  else if (pm.slots id).netQty = 0 then 0
  else (markPrice - (pm.slots id).avgCost) * (pm.slots id).netQty

/-- Realized and unrealized profit of a slot at a mark price. -/
def equity (slot : Slot) (mark : ℤ) : ℤ :=
  slot.realizedPnl + (mark - slot.avgCost) * slot.netQty

/-- A flat position has no unrealized profit, whatever its average cost. -/
lemma getRealizedPnl_add_calcUnrealizedPnl (pm : PositionManager) {id : ℕ}
    (hid : id < maxInstruments) (mark : ℤ) :
    pm.getRealizedPnl id + calcUnrealizedPnl pm id mark = equity (pm.slots id) mark := by
  rw [getRealizedPnl_of_lt pm hid, calcUnrealizedPnl, if_neg (by omega), equity]
  split_ifs with hzero
  · rw [hzero, mul_zero]
  · rfl

/-- The fill is in the direction of the position, or opens one. -/
def Increases (slot : Slot) (fill : FillEvent) : Prop :=
  match fill.side with
  | .buy => slot.netQty ≥ 0
  | .sell => slot.netQty ≤ 0

instance (slot : Slot) (fill : FillEvent) : Decidable (Increases slot fill) := by
  unfold Increases
  cases fill.side <;> infer_instance

/-- The remainder of the division that averages the cost of a fill into the position. -/
def averagingRemainder (slot : Slot) (fill : FillEvent) : ℤ :=
  match fill.side with
  | .buy =>
    (slot.avgCost * slot.netQty + fill.fillPrice * fill.fillQty).tmod (slot.netQty + fill.fillQty)
  | .sell =>
    (slot.avgCost * -slot.netQty + fill.fillPrice * fill.fillQty).tmod
      (-(slot.netQty - fill.fillQty))

/-- The remainders of the fills that increase a position in instrument `id`: counted positive for a
long, negative for a short. -/
def averagingError (id : ℕ) (pm : PositionManager) (fill : FillEvent) : ℤ :=
  if fill.instrumentId = id ∧ Increases (pm.slots id) fill then
    fill.side.signed (averagingRemainder (pm.slots id) fill)
  else 0

/-- The value (price times quantity) of the fills of one side on instrument `id`. -/
def tradedValue (id : ℕ) (side : Side) (fills : List FillEvent) : ℤ :=
  (fills.map fun f =>
    if f.instrumentId = id ∧ f.side = side then f.fillPrice * f.fillQty else 0).sum

/-- The sum of the signed quantities of the fills on instrument `id`. -/
def signedQty (id : ℕ) (fills : List FillEvent) : ℤ :=
  (fills.map fun f => if f.instrumentId = id then f.side.signed f.fillQty else 0).sum

/-- **One fill.**  Realized and unrealized profit change by the cash of the fill, the value of the
quantity it moves, and the remainder of the averaging division if there is one. -/
lemma equity_onFill (slot : Slot) {fill : FillEvent} (hq : 0 < fill.fillQty) (mark : ℤ) :
    equity (slot.onFill fill) mark =
      equity slot mark + fill.side.signed (mark * fill.fillQty - fill.fillPrice * fill.fillQty) +
        if Increases slot fill then fill.side.signed (averagingRemainder slot fill) else 0 := by
  cases hside : fill.side with
  | buy =>
    rcases le_or_gt 0 slot.netQty with hcur | hcur
    · have hinc : Increases slot fill := by simpa [Increases, hside] using hcur
      have hdiv := Int.tdiv_mul_add_tmod
        (slot.avgCost * slot.netQty + fill.fillPrice * fill.fillQty) (slot.netQty + fill.fillQty)
      rw [Slot.onFill_buy_grow hside hcur hq, if_pos hinc]
      simp only [equity, averagingRemainder, hside, Side.signed_buy]
      linear_combination -hdiv
    · have hinc : ¬Increases slot fill := by simpa [Increases, hside] using hcur
      rw [Slot.onFill_buy_close hside hcur, if_neg hinc]
      simp only [equity, Side.signed_buy]
      rcases lt_trichotomy (slot.netQty + fill.fillQty) 0 with hnew | hnew | hnew
      · rw [if_neg (by omega), if_neg (by omega), min_eq_left (by omega)]
        ring
      · rw [if_neg (by omega), if_pos hnew, min_eq_left (by omega)]
        linear_combination slot.avgCost * hnew
      · rw [if_pos hnew, min_eq_right (by omega)]
        ring
  | sell =>
    rcases le_or_gt slot.netQty 0 with hcur | hcur
    · have hinc : Increases slot fill := by simpa [Increases, hside] using hcur
      have hdiv := Int.tdiv_mul_add_tmod
        (slot.avgCost * -slot.netQty + fill.fillPrice * fill.fillQty)
        (-(slot.netQty - fill.fillQty))
      rw [Slot.onFill_sell_grow hside hcur hq, if_pos hinc]
      simp only [equity, averagingRemainder, hside, Side.signed_sell]
      linear_combination hdiv
    · have hinc : ¬Increases slot fill := by simpa [Increases, hside] using hcur
      rw [Slot.onFill_sell_close hside hcur, if_neg hinc]
      simp only [equity, Side.signed_sell]
      rcases lt_trichotomy (slot.netQty - fill.fillQty) 0 with hnew | hnew | hnew
      · rw [if_pos hnew, min_eq_right (by omega)]
        ring
      · rw [if_neg (by omega), if_pos hnew, min_eq_left (by omega)]
        linear_combination slot.avgCost * hnew
      · rw [if_neg (by omega), if_neg (by omega), min_eq_left (by omega)]
        ring

/-- The average cost of a slot is not negative: with positive prices this is kept by every fill. -/
private lemma avgCost_onFill_nonneg {slot : Slot} {fill : FillEvent} (hpx : 0 < fill.fillPrice)
    (hq : 0 < fill.fillQty) (h : 0 ≤ slot.avgCost) : 0 ≤ (slot.onFill fill).avgCost := by
  cases hside : fill.side with
  | buy =>
    rcases le_or_gt 0 slot.netQty with hcur | hcur
    · rw [Slot.onFill_buy_grow hside hcur hq]
      exact Int.tdiv_nonneg (by positivity) (by omega)
    · rw [Slot.onFill_buy_close hside hcur]
      dsimp only
      split_ifs <;> omega
  | sell =>
    rcases le_or_gt slot.netQty 0 with hcur | hcur
    · have habs : 0 ≤ -slot.netQty := by omega
      rw [Slot.onFill_sell_grow hside hcur hq]
      exact Int.tdiv_nonneg (by positivity) (by omega)
    · rw [Slot.onFill_sell_close hside hcur]
      dsimp only
      split_ifs <;> omega

/-- The truncated remainder is smaller than the position after the fill. -/
private lemma averagingRemainder_mem {slot : Slot} {fill : FillEvent} (hpx : 0 < fill.fillPrice)
    (hq : 0 < fill.fillQty) (h : 0 ≤ slot.avgCost) (hinc : Increases slot fill) :
    0 ≤ averagingRemainder slot fill ∧
      averagingRemainder slot fill < |(slot.onFill fill).netQty| := by
  rw [Slot.netQty_onFill]
  cases hside : fill.side with
  | buy =>
    have hcur : 0 ≤ slot.netQty := by simpa [Increases, hside] using hinc
    have hnew : 0 < slot.netQty + fill.fillQty := by omega
    simp only [averagingRemainder, hside, Side.signed_buy, abs_of_pos hnew]
    exact ⟨Int.tmod_nonneg _ (by positivity), Int.tmod_lt_of_pos _ hnew⟩
  | sell =>
    have hcur : 0 ≤ -slot.netQty := by
      have : slot.netQty ≤ 0 := by simpa [Increases, hside] using hinc
      omega
    have hnew : slot.netQty - fill.fillQty < 0 := by omega
    simp only [averagingRemainder, hside, Side.signed_sell, ← sub_eq_add_neg, abs_of_neg hnew]
    exact ⟨Int.tmod_nonneg _ (by positivity), Int.tmod_lt_of_pos _ (by omega)⟩

/-! ## Runs of fills -/

/-- The fills of a sequence have positive prices and quantities. -/
def Positive (fills : List FillEvent) : Prop :=
  ∀ f ∈ fills, 0 < f.fillPrice ∧ 0 < f.fillQty

instance (fills : List FillEvent) : Decidable (Positive fills) :=
  inferInstanceAs (Decidable (∀ f ∈ fills, 0 < f.fillPrice ∧ 0 < f.fillQty))

/-- The position manager after a sequence of fills. -/
def after (fills : List FillEvent) : PositionManager :=
  Transition.run onFill init fills

private lemma positive_admissible {fills : List FillEvent} (h : Positive fills) :
    Transition.Admissible onFill (fun _ f => 0 < f.fillPrice ∧ 0 < f.fillQty) init fills :=
  Transition.admissible_of_forall _ (fun f hf _ => h f hf) _

/-- The net quantity is the sum of the signed quantities. -/
lemma getNetQty_after (fills : List FillEvent) {id : ℕ} (hid : id < maxInstruments) :
    (after fills).getNetQty id = signedQty id fills := by
  have hadm : Transition.Admissible onFill (fun _ _ => True) init fills :=
    Transition.admissible_true ..
  have hrun := Transition.measure_run (P := fun _ => True) (m := fun pm => pm.getNetQty id)
    (fun _ _ _ _ => trivial) (fun pm f _ _ => getNetQty_onFill pm f hid) hadm trivial
  have hinit : init.getNetQty id = 0 := ite_self 0
  rw [hinit, zero_add, Transition.sumAlong_action] at hrun
  exact hrun

/-- What a fill adds to the profit of instrument `id` at a mark price, apart from the averaging. -/
private def contribution (id : ℕ) (mark : ℤ) (f : FillEvent) : ℤ :=
  if f.instrumentId = id then f.side.signed (mark * f.fillQty - f.fillPrice * f.fillQty) else 0

private lemma sum_contribution (id : ℕ) (mark : ℤ) (fills : List FillEvent) :
    (fills.map (contribution id mark)).sum =
      tradedValue id .sell fills - tradedValue id .buy fills + mark * signedQty id fills := by
  induction fills with
  | nil => simp [tradedValue, signedQty]
  | cons f fills ih =>
    simp only [tradedValue, signedQty, List.map_cons, List.sum_cons] at ih ⊢
    rw [ih, contribution]
    by_cases hid : f.instrumentId = id
    · cases hside : f.side <;> simp [hid] <;> ring
    · simp [hid]

/-- **Position accounting.**  After any sequence of fills with positive prices and quantities the
net quantity is the sum of the signed quantities, and realized plus unrealized profit at any mark
price is what the sells brought in, less what the buys cost, plus the value of the position, plus
the remainders of the averaging divisions.  Each of these remainders is smaller than the position
after its fill. -/
theorem position_accounting (fills : List FillEvent) (hpos : Positive fills) (id : ℕ)
    (hid : id < maxInstruments) :
    (after fills).getNetQty id = signedQty id fills ∧
    (∀ mark : ℤ, (after fills).getRealizedPnl id + calcUnrealizedPnl (after fills) id mark =
      tradedValue id .sell fills - tradedValue id .buy fills + mark * (after fills).getNetQty id +
        Transition.sumAlong onFill (averagingError id) init fills) ∧
    ∀ early f, early ++ [f] <+: fills → f.instrumentId = id →
      Increases ((after early).slots id) f →
        0 ≤ averagingRemainder ((after early).slots id) f ∧
          averagingRemainder ((after early).slots id) f <
            |(after (early ++ [f])).getNetQty id| := by
  refine ⟨getNetQty_after fills hid, ?_, ?_⟩
  · intro mark
    have hrun := Transition.measure_run (P := fun _ => True)
      (m := fun pm => equity (pm.slots id) mark)
      (g := fun pm f => contribution id mark f + averagingError id pm f)
      (fun _ _ _ _ => trivial) ?_ (positive_admissible hpos) trivial
    · have hinit : equity (init.slots id) mark = 0 := by simp [equity, init]
      rw [Transition.sumAlong_add, Transition.sumAlong_action, sum_contribution, hinit,
        zero_add] at hrun
      rw [getRealizedPnl_add_calcUnrealizedPnl _ hid, getNetQty_after fills hid]
      exact hrun
    · intro pm f hf _
      rw [slots_onFill pm f hid, contribution, averagingError]
      by_cases heq : f.instrumentId = id
      · simp only [heq, if_true, true_and]
        rw [equity_onFill _ hf.2, add_assoc]
      · simp [heq]
  · rintro early f ⟨later, rfl⟩ heq hinc
    have hf := hpos f (by simp)
    have hearly : Positive early := fun f hf => hpos f (by simp [hf])
    have havg : 0 ≤ ((after early).slots id).avgCost := by
      refine Transition.invariant_run (P := fun pm => 0 ≤ (pm.slots id).avgCost) ?_
        (positive_admissible hearly) le_rfl
      intro pm f hf hpm
      rw [slots_onFill pm f hid]
      split_ifs
      · exact avgCost_onFill_nonneg hf.1 hf.2 hpm
      · exact hpm
    have hnet : (after (early ++ [f])).getNetQty id =
        (((after early).slots id).onFill f).netQty := by
      rw [after, Transition.run_concat, getNetQty, if_neg (by omega), slots_onFill _ _ hid,
        if_pos heq, after]
    rw [hnet]
    exact averagingRemainder_mem hf.1 hf.2 havg hinc

/-- Two buys at 10 and 11, for 1 and 2, average to 32 / 3 with remainder 2. -/
def twoBuys : List FillEvent :=
  [{ instrumentId := 7, fillPrice := 10, fillQty := 1 },
    { instrumentId := 7, fillPrice := 11, fillQty := 2 }]

theorem position_accounting_twoBuys :
    (after twoBuys).getRealizedPnl 7 + calcUnrealizedPnl (after twoBuys) 7 20 =
      0 - 32 + 20 * 3 + 2 := by
  have h := (position_accounting twoBuys (by decide) 7 (by decide)).2.1 20
  rw [h]
  decide

end PnlCalculator

end QuantTrade
