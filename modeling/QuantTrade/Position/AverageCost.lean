import Mathlib.Data.Finset.Max
import QuantTrade.Position.PnlCalculator

/-!
# The average cost of a position

The average cost that `on_fill` keeps is zero for a flat position.  Otherwise it lies between the
smallest and the largest price of the fills that opened or increased the position since it was last
flat or changed sides (`avgCost_between_open_prices`): truncating an average of whole prices does
not leave their range.  These prices are those of `OpenPosition`, which knows the fills but nothing
of costs.
-/

namespace QuantTrade

namespace AverageCost

open PositionManager
open PnlCalculator (Increases Positive after)

/-- The signed quantity of a position and the prices of the fills that built it up. -/
structure OpenPosition where
  net : ℤ := 0
  prices : List ℤ := []
  deriving DecidableEq, Repr

namespace OpenPosition

/-- A fill that adds to the position adds its price, one that takes from it adds none, and one that
opens a position, perhaps after it closed another, is the first of it. -/
def fill (o : OpenPosition) (f : FillEvent) : OpenPosition :=
  let net := o.net + f.side.signed f.fillQty
  { net := net
    prices :=
      if net = 0 then []
      else if o.net * net ≤ 0 then [f.fillPrice]
      else if |o.net| < |net| then f.fillPrice :: o.prices
      else o.prices }

/-- The open position in an instrument after a sequence of fills. -/
def ofFills (id : ℕ) (fills : List FillEvent) : OpenPosition :=
  Transition.run (fun o f => if f.instrumentId = id then o.fill f else o) {} fills

end OpenPosition

/-- The average that the machine takes of two prices is not outside of them. -/
lemma average_mem {avg px c q : ℤ} (havg : 0 ≤ avg) (hpx : 0 ≤ px) (hc : 0 ≤ c) (hq : 0 < q) :
    min avg px ≤ (avg * c + px * q).tdiv (c + q) ∧
      (avg * c + px * q).tdiv (c + q) ≤ max avg px := by
  have hpos : 0 < c + q := by omega
  rw [Int.tdiv_eq_ediv_of_nonneg (by positivity)]
  constructor
  · rw [Int.le_ediv_iff_mul_le hpos, mul_add]
    exact add_le_add (mul_le_mul_of_nonneg_right (min_le_left ..) hc)
      (mul_le_mul_of_nonneg_right (min_le_right ..) hq.le)
  · refine Int.ediv_le_of_le_mul hpos ?_
    rw [mul_add]
    exact add_le_add (mul_le_mul_of_nonneg_right (le_max_left ..) hc)
      (mul_le_mul_of_nonneg_right (le_max_right ..) hq.le)

section Fill

variable {slot : Slot} {f : FillEvent}

/-- A fill that increases the position averages its price in. -/
lemma avgCost_onFill_of_increases (hq : 0 < f.fillQty) (hinc : Increases slot f) :
    (slot.onFill f).avgCost = (slot.avgCost * |slot.netQty| + f.fillPrice * f.fillQty).tdiv
      (|slot.netQty| + f.fillQty) := by
  cases hside : f.side with
  | buy =>
    have hcur : 0 ≤ slot.netQty := by simpa [Increases, hside] using hinc
    rw [Slot.onFill_buy_grow hside hcur hq, abs_of_nonneg hcur]
  | sell =>
    have hcur : slot.netQty ≤ 0 := by simpa [Increases, hside] using hinc
    rw [Slot.onFill_sell_grow hside hcur hq, abs_of_nonpos hcur, neg_sub', sub_neg_eq_add]

/-- A fill against the position leaves the cost of what is left, and costs its own price when it
turns the position. -/
lemma avgCost_onFill_of_not_increases (hinc : ¬Increases slot f) :
    (slot.onFill f).avgCost =
      if (slot.onFill f).netQty = 0 then 0
      else if slot.netQty * (slot.onFill f).netQty ≤ 0 then f.fillPrice
      else slot.avgCost := by
  cases hside : f.side with
  | buy =>
    have hcur : slot.netQty < 0 := by simpa [Increases, hside] using hinc
    rw [Slot.onFill_buy_close hside hcur]
    dsimp only
    rcases lt_trichotomy (slot.netQty + f.fillQty) 0 with hnew | hnew | hnew
    · rw [if_neg (by omega), if_neg (by omega), if_neg (by omega),
        if_neg (not_le.mpr (mul_pos_of_neg_of_neg hcur hnew))]
    · rw [if_neg (by omega), if_pos hnew, if_pos hnew]
    · rw [if_pos hnew, if_neg (by omega), if_pos (mul_neg_of_neg_of_pos hcur hnew).le]
  | sell =>
    have hcur : 0 < slot.netQty := by simpa [Increases, hside] using hinc
    rw [Slot.onFill_sell_close hside hcur]
    dsimp only
    rcases lt_trichotomy (slot.netQty - f.fillQty) 0 with hnew | hnew | hnew
    · rw [if_pos hnew, if_neg (by omega), if_pos (mul_neg_of_pos_of_neg hcur hnew).le]
    · rw [if_neg (by omega), if_pos hnew, if_pos hnew]
    · rw [if_neg (by omega), if_neg (by omega), if_neg (by omega),
        if_neg (not_le.mpr (mul_pos hcur hnew))]

/-- A fill that increases the position makes its quantity grow, on the side it is on. -/
lemma netQty_onFill_of_increases (hq : 0 < f.fillQty) (hinc : Increases slot f) :
    (slot.onFill f).netQty ≠ 0 ∧ |slot.netQty| < |(slot.onFill f).netQty| ∧
      (slot.netQty ≠ 0 → 0 < slot.netQty * (slot.onFill f).netQty) := by
  rw [Slot.netQty_onFill]
  cases hside : f.side with
  | buy =>
    have hcur : 0 ≤ slot.netQty := by simpa [Increases, hside] using hinc
    rw [Side.signed_buy, abs_of_nonneg hcur, abs_of_nonneg (by omega)]
    exact ⟨by omega, by omega, fun hne => mul_pos (by omega) (by omega)⟩
  | sell =>
    have hcur : slot.netQty ≤ 0 := by simpa [Increases, hside] using hinc
    rw [Side.signed_sell, abs_of_nonpos hcur, abs_of_nonpos (by omega)]
    exact ⟨by omega, by omega, fun hne => mul_pos_of_neg_of_neg (by omega) (by omega)⟩

/-- A fill against the position that leaves some of it makes its quantity shrink. -/
lemma netQty_onFill_of_not_increases (hq : 0 < f.fillQty) (hinc : ¬Increases slot f)
    (hside : 0 < slot.netQty * (slot.onFill f).netQty) :
    ¬|slot.netQty| < |(slot.onFill f).netQty| := by
  rw [Slot.netQty_onFill] at hside ⊢
  cases hs : f.side with
  | buy =>
    have hcur : slot.netQty < 0 := by simpa [Increases, hs] using hinc
    simp only [hs, Side.signed_buy] at hside ⊢
    have hnew := neg_of_mul_pos_right hside hcur.le
    rw [abs_of_neg hcur, abs_of_neg hnew]
    omega
  | sell =>
    have hcur : 0 < slot.netQty := by simpa [Increases, hs] using hinc
    simp only [hs, Side.signed_sell] at hside ⊢
    have hnew := pos_of_mul_pos_right hside hcur.le
    rw [abs_of_pos hcur, abs_of_pos hnew]
    omega

end Fill

/-! ## Runs of fills -/

/-- The average cost lies between two prices of the open position. -/
structure InRange (slot : Slot) (o : OpenPosition) : Prop where
  net_eq : o.net = slot.netQty
  prices_pos : ∀ price ∈ o.prices, 0 < price
  avg_of_flat : slot.netQty = 0 → slot.avgCost = 0
  prices_of_flat : slot.netQty = 0 → o.prices = []
  exists_le : slot.netQty ≠ 0 → ∃ price ∈ o.prices, price ≤ slot.avgCost
  exists_ge : slot.netQty ≠ 0 → ∃ price ∈ o.prices, slot.avgCost ≤ price

namespace InRange

variable {slot : Slot} {o : OpenPosition} {f : FillEvent}

/-- A position has a positive cost. -/
lemma avgCost_pos (h : InRange slot o) (hne : slot.netQty ≠ 0) : 0 < slot.avgCost := by
  obtain ⟨price, hmem, hle⟩ := h.exists_le hne
  exact (h.prices_pos price hmem).trans_le hle

lemma avgCost_eq_zero_iff (h : InRange slot o) : slot.avgCost = 0 ↔ slot.netQty = 0 := by
  refine ⟨fun havg => ?_, h.avg_of_flat⟩
  by_contra hne
  exact (h.avgCost_pos hne).ne' havg

lemma avgCost_nonneg (h : InRange slot o) : 0 ≤ slot.avgCost := by
  by_cases hzero : slot.netQty = 0
  · exact (h.avg_of_flat hzero).ge
  · exact (h.avgCost_pos hzero).le

lemma net_fill (h : InRange slot o) (f : FillEvent) :
    (o.fill f).net = (slot.onFill f).netQty := by
  rw [Slot.netQty_onFill, ← h.net_eq]
  rfl

/-- The prices after a fill, by the quantities before and after it. -/
lemma prices_fill (h : InRange slot o) (f : FillEvent) :
    (o.fill f).prices =
      if (slot.onFill f).netQty = 0 then []
      else if slot.netQty * (slot.onFill f).netQty ≤ 0 then [f.fillPrice]
      else if |slot.netQty| < |(slot.onFill f).netQty| then f.fillPrice :: o.prices
      else o.prices := by
  rw [← h.net_fill, ← h.net_eq]
  rfl

/-- A fill that increases the position adds its price. -/
lemma prices_fill_of_increases (h : InRange slot o) (hq : 0 < f.fillQty)
    (hinc : Increases slot f) : (o.fill f).prices = f.fillPrice :: o.prices := by
  obtain ⟨hne, hlt, hpos⟩ := netQty_onFill_of_increases hq hinc
  rw [h.prices_fill, if_neg hne, if_pos hlt]
  split_ifs with hside
  · have hflat : slot.netQty = 0 := by
      by_contra hopen
      exact not_lt_of_ge hside (hpos hopen)
    rw [h.prices_of_flat hflat]
  · rfl

/-- A fill that increases the position averages a price into the range of the others. -/
lemma onFill_of_increases (h : InRange slot o) (hpx : 0 < f.fillPrice) (hq : 0 < f.fillQty)
    (hinc : Increases slot f) : InRange (slot.onFill f) (o.fill f) := by
  have hprices := h.prices_fill_of_increases hq hinc
  have hne := (netQty_onFill_of_increases hq hinc).1
  have havg := avgCost_onFill_of_increases hq hinc
  obtain ⟨hmin, hmax⟩ := average_mem h.avgCost_nonneg hpx.le (abs_nonneg slot.netQty) hq
  rw [← havg] at hmin hmax
  have hfirst : slot.netQty = 0 → (slot.onFill f).avgCost = f.fillPrice := by
    intro hflat
    rw [havg, hflat, abs_zero, mul_zero, zero_add, zero_add, Int.mul_tdiv_cancel _ hq.ne']
  refine ⟨h.net_fill f, ?_, fun h0 => absurd h0 hne, fun h0 => absurd h0 hne, fun _ => ?_,
    fun _ => ?_⟩
  · rw [hprices]
    exact List.forall_mem_cons.mpr ⟨hpx, h.prices_pos⟩
  · rw [hprices]
    by_cases hflat : slot.netQty = 0
    · exact ⟨f.fillPrice, List.mem_cons_self, (hfirst hflat).ge⟩
    · rcases min_le_iff.mp hmin with hle | hle
      · obtain ⟨price, hmem, hprice⟩ := h.exists_le hflat
        exact ⟨price, List.mem_cons_of_mem _ hmem, hprice.trans hle⟩
      · exact ⟨f.fillPrice, List.mem_cons_self, hle⟩
  · rw [hprices]
    by_cases hflat : slot.netQty = 0
    · exact ⟨f.fillPrice, List.mem_cons_self, (hfirst hflat).le⟩
    · rcases le_max_iff.mp hmax with hle | hle
      · obtain ⟨price, hmem, hprice⟩ := h.exists_ge hflat
        exact ⟨price, List.mem_cons_of_mem _ hmem, hle.trans hprice⟩
      · exact ⟨f.fillPrice, List.mem_cons_self, hle⟩

/-- A fill against the position closes it, turns it, or leaves its cost and its prices. -/
lemma onFill_of_not_increases (h : InRange slot o) (hpx : 0 < f.fillPrice) (hq : 0 < f.fillQty)
    (hinc : ¬Increases slot f) : InRange (slot.onFill f) (o.fill f) := by
  have hnet := h.net_fill f
  have hprices := h.prices_fill f
  have havg := avgCost_onFill_of_not_increases hinc
  by_cases hflat : (slot.onFill f).netQty = 0
  · rw [if_pos hflat] at hprices havg
    refine ⟨hnet, ?_, fun _ => havg, fun _ => hprices, fun hne => absurd hflat hne,
      fun hne => absurd hflat hne⟩
    rw [hprices]
    exact List.forall_mem_nil _
  · rw [if_neg hflat] at hprices havg
    by_cases hside : slot.netQty * (slot.onFill f).netQty ≤ 0
    · rw [if_pos hside] at hprices havg
      refine ⟨hnet, ?_, fun h0 => absurd h0 hflat, fun h0 => absurd h0 hflat, fun _ => ?_,
        fun _ => ?_⟩
      · rw [hprices]
        exact List.forall_mem_singleton.mpr hpx
      · exact ⟨f.fillPrice, hprices ▸ List.mem_singleton_self _, havg.ge⟩
      · exact ⟨f.fillPrice, hprices ▸ List.mem_singleton_self _, havg.le⟩
    · have hshrinks := netQty_onFill_of_not_increases hq hinc (not_le.mp hside)
      rw [if_neg hside] at havg
      rw [if_neg hside, if_neg hshrinks] at hprices
      have hopen : slot.netQty ≠ 0 := by
        intro hzero
        exact hside (by rw [hzero, zero_mul])
      refine ⟨hnet, ?_, fun h0 => absurd h0 hflat, fun h0 => absurd h0 hflat, fun _ => ?_,
        fun _ => ?_⟩
      · rw [hprices]
        exact h.prices_pos
      · rw [hprices, havg]
        exact h.exists_le hopen
      · rw [hprices, havg]
        exact h.exists_ge hopen

/-- Every fill with a positive price and quantity keeps the average cost in range. -/
lemma onFill (h : InRange slot o) (hpx : 0 < f.fillPrice) (hq : 0 < f.fillQty) :
    InRange (slot.onFill f) (o.fill f) := by
  by_cases hinc : Increases slot f
  · exact h.onFill_of_increases hpx hq hinc
  · exact h.onFill_of_not_increases hpx hq hinc

end InRange

/-- The average cost stays in range in every run of fills. -/
lemma inRange_after {id : ℕ} (hid : id < maxInstruments) {fills : List FillEvent}
    (hpos : Positive fills) : InRange ((after fills).slots id) (OpenPosition.ofFills id fills) := by
  induction fills using List.reverseRecOn with
  | nil => exact ⟨rfl, List.forall_mem_nil _, fun _ => rfl, fun _ => rfl, absurd rfl, absurd rfl⟩
  | append_singleton fills f ih =>
    have hf := hpos f (by simp)
    have hfills := ih fun g hg => hpos g (by simp [hg])
    rw [after, Transition.run_concat, slots_onFill _ f hid, OpenPosition.ofFills,
      Transition.run_concat]
    split_ifs
    · exact hfills.onFill hf.1 hf.2
    · exact hfills

/-- **Average cost.**  After any fills with positive prices and quantities the average cost of an
instrument is zero exactly when its position is flat, and otherwise it lies between the smallest
and the largest price of the fills that opened or increased the position since it was last flat or
changed sides. -/
theorem avgCost_between_open_prices (fills : List FillEvent) (hpos : Positive fills) (id : ℕ) :
    ((after fills).getAvgCost id = 0 ↔ (after fills).getNetQty id = 0) ∧
    ((after fills).getNetQty id ≠ 0 →
      ∃ lo hi, IsLeast {price | price ∈ (OpenPosition.ofFills id fills).prices} lo ∧
        IsGreatest {price | price ∈ (OpenPosition.ofFills id fills).prices} hi ∧
        lo ≤ (after fills).getAvgCost id ∧ (after fills).getAvgCost id ≤ hi) := by
  rw [getAvgCost, getNetQty]
  by_cases hid : id ≥ maxInstruments
  · rw [if_pos hid, if_pos hid]
    exact ⟨Iff.rfl, absurd rfl⟩
  · rw [if_neg hid, if_neg hid]
    have h := inRange_after (not_le.mp hid) hpos
    refine ⟨h.avgCost_eq_zero_iff, fun hopen => ?_⟩
    obtain ⟨below, hbelow, hle⟩ := h.exists_le hopen
    obtain ⟨above, habove, hge⟩ := h.exists_ge hopen
    have hne : (OpenPosition.ofFills id fills).prices.toFinset.Nonempty :=
      ⟨below, List.mem_toFinset.mpr hbelow⟩
    have hleast := Finset.isLeast_min' _ hne
    have hgreatest := Finset.isGreatest_max' _ hne
    rw [List.coe_toFinset] at hleast hgreatest
    exact ⟨_, _, hleast, hgreatest, (hleast.2 hbelow).trans hle, hge.trans (hgreatest.2 habove)⟩

/-- A long of 3 is built at 10 and 11 and turned into a short of 2 at 12, to which 1 is added
at 15. -/
def turned : List FillEvent :=
  [{ instrumentId := 7, fillPrice := 10, fillQty := 1 },
    { instrumentId := 7, fillPrice := 11, fillQty := 2 },
    { instrumentId := 7, side := .sell, fillPrice := 12, fillQty := 5 },
    { instrumentId := 7, side := .sell, fillPrice := 15, fillQty := 1 }]

example : (OpenPosition.ofFills 7 turned).prices = [15, 12] ∧ (after turned).getAvgCost 7 = 13 := by
  decide

theorem avgCost_between_open_prices_turned :
    ∃ lo hi, IsLeast {price | price ∈ (OpenPosition.ofFills 7 turned).prices} lo ∧
      IsGreatest {price | price ∈ (OpenPosition.ofFills 7 turned).prices} hi ∧
      lo ≤ (after turned).getAvgCost 7 ∧ (after turned).getAvgCost 7 ≤ hi :=
  (avgCost_between_open_prices turned (by decide) 7).2 (by decide)

end AverageCost

end QuantTrade
