import Mathlib.Algebra.Order.BigOperators.Group.List
import Mathlib.Algebra.Order.Field.Basic
import Mathlib.Algebra.Order.Ring.Rat
import Mathlib.Algebra.Ring.Int.Defs
import Mathlib.Tactic.Linarith
import Mathlib.Tactic.NormNum
import QuantTrade.Common.Doubles
import QuantTrade.Common.Types
import QuantTrade.Library.RunningMax

/-!
# The report of a backtest

`MetricsReport` of `src/backtest/metrics_report.{hpp,cpp}`, with its maximal drawdown.  The header
and the tests measure a drawdown in parts of the peak it falls from; the code computes how far the
cumulative profit and loss falls, in units (`maxDrawdown_eq`).  The two agree exactly when nothing
is ever lost or the deepest fall is one from a peak of a single unit (`maxDrawdown_iff`).  In units
it agrees with the other figures of the report (`figures_agree`).
-/

namespace QuantTrade

/-- The daily results. -/
structure MetricsReport where
  dailyPnls : List ℤ := []
  deriving DecidableEq, Repr

namespace MetricsReport

/-- `record_pnl`. -/
def recordPnl (r : MetricsReport) (dailyPnl : ℤ) : MetricsReport :=
  { r with dailyPnls := r.dailyPnls ++ [dailyPnl] }

/-- The variables of the loop in `max_drawdown`. -/
structure Drawdown (F : Type) where
  peak : F
  cumulative : F
  maxDd : F

variable {F : Type} [Doubles F]

open Doubles

/-- A round of the loop in `max_drawdown`. -/
def Drawdown.day (d : Drawdown F) (v : ℤ) : Drawdown F :=
  let cumulative := d.cumulative + ofInt v
  let peak := if lt d.peak cumulative then cumulative else d.peak
  let dd := peak - cumulative
  { peak := peak
    cumulative := cumulative
    maxDd := if lt d.maxDd dd then dd else d.maxDd }

/-- `max_drawdown`. -/
def maxDrawdown (r : MetricsReport) : F :=
  if r.dailyPnls.isEmpty then lit 0
  else (r.dailyPnls.foldl Drawdown.day ⟨lit 0, lit 0, lit 0⟩).maxDd

/-- The report of some days. -/
def record (pnls : List ℤ) : MetricsReport :=
  pnls.foldl recordPnl {}

/-! ## What a drawdown is -/

/-- The running maximum of the cumulative result, from 0 on. -/
def peak (days : List ℤ) : ℤ :=
  RunningMax.peak List.sum days

/-- How far the cumulative result is below its peak after some days. -/
def fall (days : List ℤ) : ℤ :=
  peak days - days.sum

/-- The deepest fall up to some day. -/
def deepest (pnls : List ℤ) : ℤ :=
  RunningMax.peak fall pnls

/-- The drawdown after some days, in parts of the peak. -/
def drawdown (days : List ℤ) : ℚ :=
  if peak days ≤ 0 then 0 else ((peak days : ℚ) - days.sum) / peak days

/-- `d` is the maximum over all days of the drawdown, and 0 without days. -/
def IsMaxDrawdown (pnls : List ℤ) (d : ℚ) : Prop :=
  if pnls = [] then d = 0
  else IsGreatest {x | ∃ days, days ≠ [] ∧ days <+: pnls ∧ x = drawdown days} d

/-! ## What the code computes -/

@[simp] lemma dailyPnls_record (pnls : List ℤ) : (record pnls).dailyPnls = pnls := by
  induction pnls using List.reverseRecOn with
  | nil => rfl
  | append_singleton pnls v ih => simpa [record, recordPnl] using ih

lemma peak_concat (days : List ℤ) (v : ℤ) :
    peak (days ++ [v]) = max (peak days) (days.sum + v) := by
  rw [peak, RunningMax.peak_concat, List.sum_append, List.sum_singleton, peak]

lemma fall_concat (days : List ℤ) (v : ℤ) :
    fall (days ++ [v]) = max (peak days) (days.sum + v) - (days.sum + v) := by
  rw [fall, peak_concat, List.sum_append, List.sum_singleton]

lemma deepest_concat (days : List ℤ) (v : ℤ) :
    deepest (days ++ [v]) = max (deepest days) (fall (days ++ [v])) :=
  RunningMax.peak_concat fall days v

lemma fall_le_deepest {days pnls : List ℤ} (h : days <+: pnls) : fall days ≤ deepest pnls :=
  RunningMax.le_peak fall h

/-- The peak of some days is not below the result. -/
lemma fall_nonneg (days : List ℤ) : 0 ≤ fall days :=
  sub_nonneg.mpr (RunningMax.le_peak List.sum (List.prefix_refl days))

/-- An assignment under a comparison is a maximum. -/
lemma ite_lt_eq_max (a b : ℤ) :
    (if lt (a : ℚ) (b : ℚ) then (b : ℚ) else (a : ℚ)) = (max a b : ℤ) := by
  have hlt : lt (a : ℚ) (b : ℚ) = decide (a < b) := decide_eq_decide.mpr Int.cast_lt
  rw [hlt]
  by_cases h : a < b
  · rw [if_pos (decide_eq_true h), max_eq_right h.le]
  · rw [if_neg (by simpa using h), max_eq_left (not_lt.mp h)]

/-- A round of the loop on integers. -/
lemma day_intCast (p c m v : ℤ) :
    (⟨p, c, m⟩ : Drawdown ℚ).day v =
      ⟨(max p (c + v) : ℤ), (c + v : ℤ), (max m (max p (c + v) - (c + v)) : ℤ)⟩ := by
  have hcumulative : (c : ℚ) + ofInt v = ((c + v : ℤ) : ℚ) := (Int.cast_add c v).symm
  simp only [Drawdown.day]
  rw [hcumulative, ite_lt_eq_max, ← Int.cast_sub, ite_lt_eq_max]

/-- The variables of the loop after some days. -/
lemma foldl_day (days : List ℤ) :
    days.foldl Drawdown.day (⟨lit 0, lit 0, lit 0⟩ : Drawdown ℚ) =
      ⟨peak days, days.sum, deepest days⟩ := by
  induction days using List.reverseRecOn with
  | nil => simp [deepest, peak, fall, lit]
  | append_singleton days v ih =>
    rw [List.foldl_concat, ih, day_intCast, deepest_concat, fall_concat, peak_concat,
      List.sum_append, List.sum_singleton]

/-- **Absolute drawdown.**  The code computes the deepest fall of the cumulative result, in
units. -/
theorem maxDrawdown_eq (pnls : List ℤ) :
    ((record pnls).maxDrawdown : ℚ) = (deepest pnls : ℤ) := by
  unfold maxDrawdown
  rw [dailyPnls_record, foldl_day]
  cases pnls with
  | nil => simp [deepest, fall, peak, lit]
  | cons v pnls => rfl

/-! ## When the two agree -/

/-- A peak is at least the starting point. -/
lemma peak_nonneg (days : List ℤ) : 0 ≤ peak days :=
  RunningMax.le_peak List.sum List.nil_prefix

/-- A drawdown in parts of the peak is no more than the fall, since a peak above 0 is at least 1. -/
lemma drawdown_le_fall (days : List ℤ) : drawdown days ≤ fall days := by
  have hfall : (0 : ℚ) ≤ fall days := Int.cast_nonneg (fall_nonneg days)
  unfold drawdown
  split_ifs with hpeak
  · exact hfall
  · have hone : (1 : ℚ) ≤ peak days := by
      exact_mod_cast not_le.mp hpeak
    rw [← Int.cast_sub]
    exact div_le_self hfall hone

/-- A fall from a peak of one is the drawdown. -/
lemma drawdown_of_peak_one {days : List ℤ} (h : peak days = 1) : drawdown days = fall days := by
  rw [drawdown, h, if_neg (by decide), fall, h]
  simp

/-- A drawdown that is as large as the fall is none, or one from a peak of one. -/
lemma fall_eq_zero_or_peak_one {days : List ℤ} (h : drawdown days = fall days) :
    fall days = 0 ∨ peak days = 1 := by
  by_contra hneither
  obtain ⟨hfall, hone⟩ := not_or.mp hneither
  have hpos : 0 < fall days := lt_of_le_of_ne (fall_nonneg days) (Ne.symm hfall)
  unfold drawdown at h
  split_ifs at h with hpeak
  · have : (0 : ℚ) < fall days := Int.cast_pos.mpr hpos
    exact absurd h this.ne
  · have htwo : (1 : ℚ) < peak days := by
      have : 1 < peak days := lt_of_le_of_ne (not_le.mp hpeak) (Ne.symm hone)
      exact_mod_cast this
    have hlt : (fall days : ℚ) / peak days < fall days :=
      div_lt_self (Int.cast_pos.mpr hpos) htwo
    rw [← Int.cast_sub] at h
    exact absurd h hlt.ne

/-- The cumulative result is never below its peak exactly when no day has a loss. -/
lemma deepest_eq_zero_iff (pnls : List ℤ) :
    deepest pnls = 0 ↔ ∀ v ∈ pnls, 0 ≤ v := by
  induction pnls using List.reverseRecOn with
  | nil => simp [deepest, fall, peak]
  | append_singleton days v ih =>
    have hdeepest := fall_le_deepest (List.prefix_refl days)
    have hdays : fall days = peak days - days.sum := rfl
    have hnonneg := fall_nonneg days
    have hnext := fall_concat days v
    rw [deepest_concat, List.forall_mem_append, ← ih, List.forall_mem_singleton]
    omega

/-- The report is right exactly when a day has a drawdown as large as the deepest fall. -/
lemma isMaxDrawdown_iff_exists (pnls : List ℤ) :
    IsMaxDrawdown pnls (deepest pnls : ℤ) ↔
      ∃ days, days <+: pnls ∧ drawdown days = (deepest pnls : ℤ) := by
  unfold IsMaxDrawdown
  split_ifs with hnil
  · subst hnil
    refine iff_of_true (by simp [deepest, fall, peak]) ⟨[], List.prefix_refl _, ?_⟩
    simp [drawdown, deepest, fall, peak]
  · constructor
    · rintro ⟨⟨days, -, hdays, heq⟩, -⟩
      exact ⟨days, hdays, heq.symm⟩
    · rintro ⟨days, hdays, heq⟩
      constructor
      · by_cases hempty : days = []
        · -- nothing has fallen, so the first day will do as well
          subst hempty
          have hzero : (deepest pnls : ℚ) = 0 := by
            rw [← heq]
            simp [drawdown, peak]
          refine ⟨pnls, hnil, List.prefix_refl _, ?_⟩
          have hle := drawdown_le_fall pnls
          have hfall : (fall pnls : ℚ) ≤ deepest pnls :=
            Int.cast_le.mpr (fall_le_deepest (List.prefix_refl _))
          have hnonneg : 0 ≤ drawdown pnls := by
            unfold drawdown
            split_ifs with hpeak
            · exact le_rfl
            · rw [← Int.cast_sub]
              exact div_nonneg (Int.cast_nonneg (fall_nonneg pnls))
                (Int.cast_nonneg (peak_nonneg pnls))
          linarith
        · exact ⟨days, hempty, hdays, heq.symm⟩
      · rintro _ ⟨other, -, hother, rfl⟩
        exact (drawdown_le_fall other).trans (Int.cast_le.mpr (fall_le_deepest hother))

/-- **Maximal drawdown.**  With exact arithmetic, `max_drawdown` is the maximum over all days of the
drawdown in parts of the peak exactly when no day has a loss, or there is a day on which the peak is
one and the fall is not less than on any other day. -/
theorem maxDrawdown_iff (pnls : List ℤ) :
    IsMaxDrawdown pnls (record pnls).maxDrawdown ↔
      (∀ v ∈ pnls, 0 ≤ v) ∨
        ∃ days, days <+: pnls ∧ peak days = 1 ∧
          ∀ other, other <+: pnls → fall other ≤ fall days := by
  rw [maxDrawdown_eq, isMaxDrawdown_iff_exists, ← deepest_eq_zero_iff]
  constructor
  · rintro ⟨days, hdays, heq⟩
    have hgreatest : fall days = deepest pnls := by
      apply le_antisymm (fall_le_deepest hdays)
      exact_mod_cast heq ▸ drawdown_le_fall days
    rcases fall_eq_zero_or_peak_one (hgreatest ▸ heq) with hzero | hone
    · exact .inl (hgreatest.symm.trans hzero)
    · refine .inr ⟨days, hdays, hone, fun other hother => ?_⟩
      rw [hgreatest]
      exact fall_le_deepest hother
  · rintro (hzero | ⟨days, hdays, hone, hdeepest⟩)
    · refine ⟨[], List.nil_prefix, ?_⟩
      rw [hzero]
      simp [drawdown, peak]
    · refine ⟨days, hdays, ?_⟩
      obtain ⟨other, hother, heq⟩ := RunningMax.exists_eq_peak fall pnls
      rw [drawdown_of_peak_one hone]
      have hle := fall_le_deepest hdays
      have hge := hdeepest other hother
      exact_mod_cast le_antisymm hle (heq.trans_le hge)

/-- 100 won and 50 lost: the code has a drawdown of 50, half of the peak is lost. -/
theorem not_isMaxDrawdown_halfLost :
    ¬∀ pnls : List ℤ, IsMaxDrawdown pnls (record pnls).maxDrawdown := by
  intro hclaim
  have hmax := hclaim [100, -50]
  rw [maxDrawdown_eq] at hmax
  obtain ⟨days, hdays, heq⟩ := (isMaxDrawdown_iff_exists _).mp hmax
  have hmem : days ∈ [[], [100], [100, -50]] := by
    simpa using (List.mem_inits _ _).mpr hdays
  simp only [List.mem_cons, List.not_mem_nil, or_false] at hmem
  rcases hmem with rfl | rfl | rfl
  · exact absurd heq (by decide +kernel)
  · exact absurd heq (by decide +kernel)
  · exact absurd heq (by decide +kernel)

/-! ## The other figures -/

/-- `total_pnl`. -/
def totalPnl (r : MetricsReport) : ℤ :=
  r.dailyPnls.foldl (fun total v => total + v) 0

/-- `total_pnl` in `int64_t`, every sum reduced to 64 bits. -/
def totalPnl64 (r : MetricsReport) : ℤ :=
  r.dailyPnls.foldl (fun total v => (total + v).bmod (2 ^ 64)) 0

/-- `max_daily_pnl`: the loop starts from the least number of 64 bits. -/
def maxDailyPnl (r : MetricsReport) : ℤ :=
  if r.dailyPnls.isEmpty then 0
  else r.dailyPnls.foldl (fun m v => if v > m then v else m) (-2 ^ 63)

/-- `min_daily_pnl`: the loop starts from the greatest number of 64 bits. -/
def minDailyPnl (r : MetricsReport) : ℤ :=
  if r.dailyPnls.isEmpty then 0
  else r.dailyPnls.foldl (fun m v => if v < m then v else m) (2 ^ 63 - 1)

/-- The loop in `win_rate`. -/
def wins (r : MetricsReport) : ℕ :=
  r.dailyPnls.foldl (fun wins v => if v > 0 then wins + 1 else wins) 0

/-- `win_rate`. -/
def winRate (r : MetricsReport) : F :=
  if r.dailyPnls.isEmpty then lit 0
  else ofInt r.wins / ofInt r.dailyPnls.length

/-- `trading_days`. -/
def tradingDays (r : MetricsReport) : ℕ :=
  r.dailyPnls.length

/-- The loop adds up the days. -/
lemma totalPnl_eq (r : MetricsReport) : r.totalPnl = r.dailyPnls.sum :=
  List.sum_eq_foldl.symm

/-- As long as no sum on the way leaves the range, so does the loop of 64 bits. -/
lemma totalPnl64_eq {r : MetricsReport} (h : ∀ days ∈ r.dailyPnls.inits, InInt64 days.sum) :
    r.totalPnl64 = r.totalPnl := by
  have hloop : ∀ days : List ℤ, days <+: r.dailyPnls →
      days.foldl (fun total v => (total + v).bmod (2 ^ 64)) 0 = days.sum := by
    intro days hdays
    induction days using List.reverseRecOn with
    | nil => rfl
    | append_singleton days v ih =>
      have hrange := h _ ((List.mem_inits ..).mpr hdays)
      rw [List.sum_append, List.sum_singleton] at hrange
      rw [List.foldl_concat, ih ((List.prefix_append days [v]).trans hdays), List.sum_append,
        List.sum_singleton, hrange.bmod_eq]
  rw [totalPnl64, hloop _ List.prefix_rfl, totalPnl_eq]

/-- The loop counts the days with a profit. -/
lemma wins_eq (r : MetricsReport) : r.wins = r.dailyPnls.countP (0 < ·) := by
  have hloop : ∀ (days : List ℤ) (n : ℕ),
      days.foldl (fun wins v => if v > 0 then wins + 1 else wins) n =
        n + days.countP (0 < ·) := by
    intro days
    induction days with
    | nil => simp
    | cons v days ih =>
      intro n
      rw [List.foldl_cons, ih, List.countP_cons]
      by_cases hv : 0 < v
      · simp only [gt_iff_lt, hv, if_true, decide_true]
        omega
      · simp [hv]
  rw [wins, hloop, Nat.zero_add]

section Days

variable {pnls : List ℤ}

/-- The greatest day. -/
lemma isGreatest_maxDailyPnl (hne : pnls ≠ []) (hlow : ∀ v ∈ pnls, -2 ^ 63 ≤ v) :
    IsGreatest {v | v ∈ pnls} (record pnls).maxDailyPnl := by
  have hloop : (record pnls).maxDailyPnl = pnls.foldl max (-2 ^ 63) := by
    rw [maxDailyPnl, dailyPnls_record, if_neg (by simpa using hne)]
    congr 1
    funext m v
    rw [max_def]
    split_ifs <;> omega
  obtain ⟨hmem, hbest⟩ := RunningMax.isGreatest_foldl_max (-2 ^ 63) pnls
  rw [← hloop] at hmem hbest
  refine ⟨?_, fun v hv => hbest (List.mem_cons_of_mem _ hv)⟩
  rcases List.mem_cons.mp hmem with hstart | hmem
  · -- then every day is as low as the start of the loop
    obtain ⟨v, hv⟩ := List.exists_mem_of_ne_nil _ hne
    have hle : v ≤ _ := hbest (List.mem_cons_of_mem _ hv)
    have heq : v = (record pnls).maxDailyPnl := le_antisymm hle (hstart.le.trans (hlow v hv))
    exact heq ▸ hv
  · exact hmem

/-- The least day. -/
lemma isLeast_minDailyPnl (hne : pnls ≠ []) (hhigh : ∀ v ∈ pnls, v < 2 ^ 63) :
    IsLeast {v | v ∈ pnls} (record pnls).minDailyPnl := by
  have hloop : (record pnls).minDailyPnl = pnls.foldl min (2 ^ 63 - 1) := by
    rw [minDailyPnl, dailyPnls_record, if_neg (by simpa using hne)]
    congr 1
    funext m v
    rw [min_def]
    split_ifs <;> omega
  obtain ⟨hmem, hbest⟩ := RunningMax.isLeast_foldl_min (2 ^ 63 - 1) pnls
  rw [← hloop] at hmem hbest
  refine ⟨?_, fun v hv => hbest (List.mem_cons_of_mem _ hv)⟩
  rcases List.mem_cons.mp hmem with hstart | hmem
  · obtain ⟨v, hv⟩ := List.exists_mem_of_ne_nil _ hne
    have hle : _ ≤ v := hbest (List.mem_cons_of_mem _ hv)
    have heq : v = (record pnls).minDailyPnl := by
      have := hhigh v hv
      omega
    exact heq ▸ hv
  · exact hmem

/-- The share of the days with a profit. -/
lemma winRate_record (hne : pnls ≠ []) :
    ((record pnls).winRate : ℚ) = (pnls.countP (0 < ·) : ℚ) / pnls.length := by
  rw [winRate, dailyPnls_record, if_neg (by simpa using hne), wins_eq, dailyPnls_record]
  simp [ofInt]

/-- A day with a loss is a fall. -/
lemma neg_le_deepest {v : ℤ} (hv : v ∈ pnls) : -v ≤ deepest pnls := by
  obtain ⟨before, rest, rfl⟩ := List.append_of_mem hv
  have hfall := fall_concat before v
  have hnonneg : before.sum ≤ peak before := sub_nonneg.mp (fall_nonneg before)
  have hle : fall (before ++ [v]) ≤ deepest (before ++ v :: rest) :=
    fall_le_deepest ⟨rest, by simp⟩
  omega

/-- **The figures of a report agree.**  For days of 64 bits whose sums stay within 64 bits, in exact
arithmetic of the doubles: the least and the greatest day are days, and every day is between them;
so is the average.  No loss of a day, and no loss of the whole time, is more than the maximal
drawdown, which is 0 exactly when the least day is no loss.  The win rate is 0 exactly when the
greatest day is no profit, and 1 exactly when the least day is one. -/
theorem figures_agree (hne : pnls ≠ []) (hbits : ∀ v ∈ pnls, -2 ^ 63 ≤ v ∧ v < 2 ^ 63)
    (hsums : ∀ days ∈ pnls.inits, InInt64 days.sum) :
    IsLeast {v | v ∈ pnls} (record pnls).minDailyPnl ∧
      IsGreatest {v | v ∈ pnls} (record pnls).maxDailyPnl ∧
      (record pnls).tradingDays * (record pnls).minDailyPnl ≤ (record pnls).totalPnl64 ∧
      (record pnls).totalPnl64 ≤ (record pnls).tradingDays * (record pnls).maxDailyPnl ∧
      (-(record pnls).minDailyPnl : ℚ) ≤ (record pnls).maxDrawdown ∧
      (-(record pnls).totalPnl64 : ℚ) ≤ (record pnls).maxDrawdown ∧
      ((record pnls).maxDrawdown = (0 : ℚ) ↔ 0 ≤ (record pnls).minDailyPnl) ∧
      ((record pnls).winRate = (0 : ℚ) ↔ (record pnls).maxDailyPnl ≤ 0) ∧
      ((record pnls).winRate = (1 : ℚ) ↔ 0 < (record pnls).minDailyPnl) := by
  have hleast := isLeast_minDailyPnl hne fun v hv => (hbits v hv).2
  have hgreatest := isGreatest_maxDailyPnl hne fun v hv => (hbits v hv).1
  have hlength : (pnls.length : ℚ) ≠ 0 := by simpa using hne
  have htotal : (record pnls).totalPnl64 = pnls.sum := by
    rw [totalPnl64_eq (by rwa [dailyPnls_record]), totalPnl_eq, dailyPnls_record]
  rw [htotal, tradingDays, dailyPnls_record, maxDrawdown_eq, winRate_record hne]
  refine ⟨hleast, hgreatest, ?_, ?_, ?_, ?_, ?_, ?_, ?_⟩
  · simpa using List.card_nsmul_le_sum pnls _ fun v hv => hleast.2 hv
  · simpa using List.sum_le_card_nsmul pnls _ fun v hv => hgreatest.2 hv
  · exact_mod_cast neg_le_deepest hleast.1
  · have hfall : fall pnls ≤ deepest pnls := fall_le_deepest (List.prefix_refl _)
    have hpeak := peak_nonneg pnls
    have hle : -pnls.sum ≤ deepest pnls := by
      rw [fall] at hfall
      omega
    exact_mod_cast hle
  · rw [Int.cast_eq_zero, deepest_eq_zero_iff]
    exact ⟨fun h => h _ hleast.1, fun h v hv => h.trans (hleast.2 hv)⟩
  · rw [div_eq_zero_iff, or_iff_left hlength, Nat.cast_eq_zero, List.countP_eq_zero]
    simp only [decide_eq_true_eq, not_lt]
    exact ⟨fun h => h _ hgreatest.1, fun h v hv => (hgreatest.2 hv).trans h⟩
  · rw [div_eq_one_iff_eq hlength, Nat.cast_inj, List.countP_eq_length]
    simp only [decide_eq_true_eq]
    exact ⟨fun h => h _ hleast.1, fun h v hv => h.trans_le (hleast.2 hv)⟩

/-- Two days. -/
theorem figures_agree_example :
    IsLeast {v | v ∈ [5, -3]} (record [5, -3]).minDailyPnl :=
  (figures_agree (by decide) (by decide) (by decide)).1

end Days

end MetricsReport

end QuantTrade
