import Mathlib.Analysis.Real.Sqrt
import QuantTrade.Backtest.MetricsReport
import QuantTrade.Library.RunningMoments

/-!
# The Sharpe ratio

`sharpe_ratio` of `src/backtest/metrics_report.cpp`: the mean of the daily results over their sample
deviation, for a year of 252 days.  With exact arithmetic the ratio of two days or more is infinite
exactly when all of them have the same result, where the tests expect 0; otherwise its sign is that
of the total, and its square is a fraction of the totals (`sharpeRatio_of_totals`).
-/

namespace QuantTrade

open Doubles

/-- The real numbers as doubles without rounding. -/
noncomputable instance : Doubles ℝ where
  lit x := x
  ofInt x := x
  toInt x := if 0 ≤ x then ⌊x⌋ else ⌈x⌉
  sqrt := Real.sqrt
  lt x y := decide (x < y)
  le x y := decide (x ≤ y)

/-- A double that may be infinite. -/
inductive Extended (F : Type) where
  | finite (x : F)
  | infinite (negative : Bool)

namespace MetricsReport

section Doubles

variable {F : Type} [Doubles F]

/-- The mean of the days in `sharpe_ratio`. -/
def dailyMean (r : MetricsReport) : F :=
  r.dailyPnls.foldl (fun sum v => sum + ofInt v) (lit 0) / ofInt r.dailyPnls.length

/-- The sample deviation of the days in `sharpe_ratio`. -/
def stdDev (r : MetricsReport) : F :=
  let sqSum := r.dailyPnls.foldl (fun sqSum v =>
    let diff := ofInt v - r.dailyMean
    sqSum + diff * diff) (lit 0)
  sqrt (sqSum / ofInt (r.dailyPnls.length - 1 : ℕ))

/-- `sharpe_ratio`.  A sum that starts from 0 is no negative zero, so the sign of the mean is a
comparison. -/
def sharpeRatio (r : MetricsReport) : Extended F :=
  if r.dailyPnls.length < 2 then .finite (lit 0)
  else if lt r.stdDev (lit (1 / 10 ^ 12) : F) then .infinite (lt r.dailyMean (lit 0 : F))
  else .finite (r.dailyMean / r.stdDev * sqrt (lit 252))

end Doubles

/-! ## Exact arithmetic -/

@[simp] lemma lit_real (x : ℚ) : (lit x : ℝ) = x := rfl

@[simp] lemma ofInt_real (v : ℤ) : (ofInt v : ℝ) = v := rfl

@[simp] lemma sqrt_real (x : ℝ) : sqrt x = √x := rfl

@[simp] lemma lt_real (x y : ℝ) : lt x y = decide (x < y) := rfl

/-- The days as real numbers. -/
def reals (pnls : List ℤ) : List ℝ :=
  pnls.map fun v : ℤ => (v : ℝ)

@[simp] lemma length_reals (pnls : List ℤ) : (reals pnls).length = pnls.length := by
  simp [reals]

@[simp] lemma sum_reals (pnls : List ℤ) : (reals pnls).sum = (pnls.sum : ℤ) := by
  simp [reals]

lemma cast_mem_reals {pnls : List ℤ} {v : ℤ} (hv : v ∈ pnls) : (v : ℝ) ∈ reals pnls :=
  List.mem_map.mpr ⟨v, hv, rfl⟩

/-- A loop that adds up. -/
lemma foldl_add (f : ℤ → ℝ) (pnls : List ℤ) (x : ℝ) :
    pnls.foldl (fun sum v => sum + f v) x = x + (pnls.map f).sum := by
  induction pnls generalizing x with
  | nil => simp
  | cons v pnls ih => rw [List.foldl_cons, ih, List.map_cons, List.sum_cons, add_assoc]

lemma map_sq_sub_reals (pnls : List ℤ) (m : ℝ) :
    ((reals pnls).map fun x => (x - m) ^ 2) =
      pnls.map fun v : ℤ => ((v : ℝ) - m) * ((v : ℝ) - m) := by
  simp [reals, Function.comp_def, sq]

lemma dailyMean_record (pnls : List ℤ) :
    ((record pnls).dailyMean : ℝ) = RunningMoments.mean (reals pnls) := by
  simp only [dailyMean, dailyPnls_record, lit_real, ofInt_real, Rat.cast_zero]
  rw [foldl_add, zero_add, RunningMoments.mean, length_reals, Int.cast_natCast]
  rfl

lemma stdDev_record {pnls : List ℤ} (htwo : 2 ≤ pnls.length) :
    ((record pnls).stdDev : ℝ) =
      √(RunningMoments.sumSq (reals pnls) / ((pnls.length : ℝ) - 1)) := by
  have hcast : (((pnls.length - 1 : ℕ) : ℤ) : ℝ) = (pnls.length : ℝ) - 1 := by
    rw [Int.cast_natCast, Nat.cast_sub (by omega), Nat.cast_one]
  simp only [stdDev, dailyPnls_record, dailyMean_record, lit_real, ofInt_real, sqrt_real,
    Rat.cast_zero]
  rw [hcast, foldl_add (fun v : ℤ => ((v : ℝ) - RunningMoments.mean (reals pnls)) *
    ((v : ℝ) - RunningMoments.mean (reals pnls))), zero_add, RunningMoments.sumSq,
    map_sq_sub_reals]

lemma sumSq_eq_zero_iff (pnls : List ℤ) :
    RunningMoments.sumSq (reals pnls) = 0 ↔ ∀ v ∈ pnls, ∀ w ∈ pnls, v = w := by
  rw [RunningMoments.sumSq_eq_zero_iff]
  constructor
  · intro h v hv w hw
    exact Int.cast_injective (h v (cast_mem_reals hv) w (cast_mem_reals hw))
  · intro h x hx y hy
    obtain ⟨v, hv, rfl⟩ := List.mem_map.mp hx
    obtain ⟨w, hw, rfl⟩ := List.mem_map.mp hy
    rw [h v hv w hw]

/-- Two days with different results have a sum of squares that is not small. -/
lemma one_le_two_mul_sumSq {pnls : List ℤ} (h : RunningMoments.sumSq (reals pnls) ≠ 0) :
    1 ≤ 2 * RunningMoments.sumSq (reals pnls) := by
  rw [Ne, sumSq_eq_zero_iff] at h
  push Not at h
  obtain ⟨v, hv, w, hw, hne⟩ := h
  have hdist : (1 : ℝ) ≤ ((v : ℝ) - w) ^ 2 := by
    have hint : 0 < (v - w) ^ 2 := sq_pos_iff.mpr (sub_ne_zero.mpr hne)
    exact_mod_cast Int.add_one_le_iff.mpr hint
  exact hdist.trans (RunningMoments.sq_sub_le_two_mul_sumSq (cast_mem_reals hv) (cast_mem_reals hw)
    fun heq => hne (Int.cast_injective heq).symm)

/-- The code takes the deviation for none when there is none, as long as the number of days has 64
bits. -/
lemma stdDev_lt_iff {pnls : List ℤ} (htwo : 2 ≤ pnls.length) (hsize : pnls.length < 2 ^ 64) :
    ((record pnls).stdDev : ℝ) < 1 / 10 ^ 12 ↔ RunningMoments.sumSq (reals pnls) = 0 := by
  rw [stdDev_record htwo]
  constructor
  · intro hlittle
    by_contra hne
    have hsum := one_le_two_mul_sumSq hne
    have htwo' : (2 : ℝ) ≤ pnls.length := by exact_mod_cast htwo
    have hpos : (0 : ℝ) < (pnls.length : ℝ) - 1 := by linarith
    have hsize' : (pnls.length : ℝ) < 18446744073709551616 := by exact_mod_cast hsize
    rw [Real.sqrt_lt' (by positivity), div_lt_iff₀ hpos] at hlittle
    norm_num at hlittle
    linarith
  · intro hzero
    rw [hzero, zero_div, Real.sqrt_zero]
    positivity

lemma sharpeRatio_of_lt {pnls : List ℤ} (hfew : pnls.length < 2) :
    ((record pnls).sharpeRatio : Extended ℝ) = .finite 0 := by
  rw [sharpeRatio, dailyPnls_record, if_pos hfew, lit_real, Rat.cast_zero]

/-- The ratio of two days or more. -/
lemma sharpeRatio_record {pnls : List ℤ} (htwo : 2 ≤ pnls.length) (hsize : pnls.length < 2 ^ 64) :
    ((record pnls).sharpeRatio : Extended ℝ) =
      if RunningMoments.sumSq (reals pnls) = 0
      then .infinite (decide (RunningMoments.mean (reals pnls) < 0))
      else .finite (RunningMoments.mean (reals pnls) /
        √(RunningMoments.sumSq (reals pnls) / ((pnls.length : ℝ) - 1)) * √252) := by
  have hlt : lt ((record pnls).stdDev : ℝ) (lit (1 / 10 ^ 12)) =
      decide (RunningMoments.sumSq (reals pnls) = 0) := by
    rw [lt_real, decide_eq_decide, ← stdDev_lt_iff htwo hsize]
    norm_num
  rw [sharpeRatio, dailyPnls_record, if_neg (by omega), hlt, dailyMean_record,
    stdDev_record htwo]
  simp

/-! ## The totals -/

lemma length_mul_mean {pnls : List ℤ} (hne : pnls ≠ []) :
    (pnls.length : ℝ) * RunningMoments.mean (reals pnls) = ((record pnls).totalPnl : ℤ) := by
  have hlength : (pnls.length : ℝ) ≠ 0 := by
    rw [Nat.cast_ne_zero]
    exact (List.length_pos_iff.mpr hne).ne'
  rw [RunningMoments.mean, length_reals, sum_reals, totalPnl_eq, dailyPnls_record,
    mul_div_cancel₀ _ hlength]

/-- How much the days differ: their number times the sum of the squares, less the square of the
total. -/
def spread (r : MetricsReport) : ℤ :=
  r.tradingDays * (r.dailyPnls.map (· ^ 2)).sum - r.totalPnl ^ 2

lemma length_mul_sumSq (pnls : List ℤ) :
    (pnls.length : ℝ) * RunningMoments.sumSq (reals pnls) = (record pnls).spread := by
  have hsq : ((reals pnls).map fun x : ℝ => x ^ 2).sum =
      ((pnls.map fun v : ℤ => v ^ 2).sum : ℤ) := by
    simp [reals, Function.comp_def]
  have h := RunningMoments.length_mul_sumSq (reals pnls)
  rw [length_reals, sum_reals, hsq] at h
  rw [h, spread, tradingDays, totalPnl_eq, dailyPnls_record]
  push_cast
  rfl

/-- The ratio of days that differ, in terms of the totals. -/
lemma ratio_of_totals {pnls : List ℤ} (htwo : 2 ≤ pnls.length)
    (hne : RunningMoments.sumSq (reals pnls) ≠ 0) :
    let s := RunningMoments.mean (reals pnls) /
      √(RunningMoments.sumSq (reals pnls) / ((pnls.length : ℝ) - 1)) * √252
    s ^ 2 * (pnls.length * (record pnls).spread) =
        252 * (pnls.length - 1) * (record pnls).totalPnl ^ 2 ∧
      (0 < s ↔ 0 < (record pnls).totalPnl) ∧ (s < 0 ↔ (record pnls).totalPnl < 0) := by
  intro s
  have htwo' : (2 : ℝ) ≤ pnls.length := by exact_mod_cast htwo
  have hpos : (0 : ℝ) < (pnls.length : ℝ) - 1 := by linarith
  have hlength : (0 : ℝ) < pnls.length := by linarith
  have hsum : 0 < RunningMoments.sumSq (reals pnls) :=
    (RunningMoments.sumSq_nonneg _).lt_of_ne (Ne.symm hne)
  have htotal := length_mul_mean (List.ne_nil_of_length_pos (by omega : 0 < pnls.length))
  have hfactor : 0 < √252 / √(RunningMoments.sumSq (reals pnls) / ((pnls.length : ℝ) - 1)) :=
    div_pos (Real.sqrt_pos.mpr (by norm_num)) (Real.sqrt_pos.mpr (div_pos hsum hpos))
  have hs : s = RunningMoments.mean (reals pnls) *
      (√252 / √(RunningMoments.sumSq (reals pnls) / ((pnls.length : ℝ) - 1))) :=
    (div_mul_eq_mul_div _ _ _).trans (mul_div_assoc _ _ _)
  refine ⟨?_, ?_, ?_⟩
  · have hsquare : s ^ 2 = RunningMoments.mean (reals pnls) ^ 2 *
        (252 / (RunningMoments.sumSq (reals pnls) / ((pnls.length : ℝ) - 1))) := by
      rw [hs, mul_pow, div_pow, Real.sq_sqrt (by norm_num), Real.sq_sqrt (div_pos hsum hpos).le]
    rw [hsquare, ← length_mul_sumSq, ← htotal]
    field_simp
  · rw [hs, mul_pos_iff_of_pos_right hfactor, ← Int.cast_pos (R := ℝ), ← htotal,
      mul_pos_iff_of_pos_left hlength]
  · rw [hs, ← Int.cast_lt_zero (R := ℝ), ← htotal, mul_neg_iff, mul_neg_iff]
    simp [hfactor, hfactor.not_gt, hlength, hlength.not_gt]

/-! ## The ratio -/

/-- The order of the days does not matter. -/
lemma sharpeRatio_of_perm {pnls pnls' : List ℤ} (hsize : pnls.length < 2 ^ 64)
    (h : pnls'.Perm pnls) :
    ((record pnls').sharpeRatio : Extended ℝ) = (record pnls).sharpeRatio := by
  have hlength := h.length_eq
  have hreals : (reals pnls').Perm (reals pnls) := h.map _
  rcases lt_or_ge pnls.length 2 with hfew | htwo
  · rw [sharpeRatio_of_lt hfew, sharpeRatio_of_lt (hlength ▸ hfew)]
  · rw [sharpeRatio_record htwo hsize, sharpeRatio_record (hlength ▸ htwo) (hlength ▸ hsize),
      RunningMoments.mean_of_perm hreals, RunningMoments.sumSq_of_perm hreals, hlength]

/-- The unit of the results does not matter. -/
lemma sharpeRatio_map_mul {pnls : List ℤ} (hsize : pnls.length < 2 ^ 64) {c : ℤ} (hc : 0 < c) :
    ((record (pnls.map (c * ·))).sharpeRatio : Extended ℝ) = (record pnls).sharpeRatio := by
  have hlength : (pnls.map (c * ·)).length = pnls.length := List.length_map _
  have hreals : reals (pnls.map (c * ·)) = (reals pnls).map ((c : ℝ) * ·) := by
    simp [reals, Function.comp_def]
  have hpos : (0 : ℝ) < c := by exact_mod_cast hc
  rcases lt_or_ge pnls.length 2 with hfew | htwo
  · rw [sharpeRatio_of_lt hfew, sharpeRatio_of_lt (hlength ▸ hfew)]
  · have hratio : (c : ℝ) * RunningMoments.mean (reals pnls) /
        √((c : ℝ) ^ 2 * RunningMoments.sumSq (reals pnls) / ((pnls.length : ℝ) - 1)) =
        RunningMoments.mean (reals pnls) /
          √(RunningMoments.sumSq (reals pnls) / ((pnls.length : ℝ) - 1)) := by
      rw [mul_div_assoc ((c : ℝ) ^ 2), Real.sqrt_mul (sq_nonneg _), Real.sqrt_sq hpos.le,
        mul_div_mul_left _ _ hpos.ne']
    rw [sharpeRatio_record htwo hsize, sharpeRatio_record (hlength ▸ htwo) (hlength ▸ hsize),
      hreals, RunningMoments.mean_map_mul, RunningMoments.sumSq_map_mul, hlength, hratio]
    simp [hpos.ne', mul_neg_iff, hpos, hpos.not_gt]

lemma two_le_length {pnls : List ℤ} {v w : ℤ} (hv : v ∈ pnls) (hw : w ∈ pnls) (hne : v ≠ w) :
    2 ≤ pnls.length := by
  by_contra hfew
  obtain ⟨u, rfl⟩ := List.length_eq_one_iff.mp
    (le_antisymm (by omega) (List.length_pos_of_mem hv))
  exact hne ((List.mem_singleton.mp hv).trans (List.mem_singleton.mp hw).symm)

/-- **The Sharpe ratio.**  With exact arithmetic it is 0 with fewer than two days.  With two days or
more it is infinite, with the sign of the total, when all days have the same result, and otherwise
the number with the sign of the total whose square is that of the mean over the deviation, in terms
of the totals.  Neither the order of the days nor the unit of the results matters. -/
theorem sharpeRatio_of_totals (pnls : List ℤ) (hsize : pnls.length < 2 ^ 64) :
    (pnls.length < 2 → ((record pnls).sharpeRatio : Extended ℝ) = .finite 0) ∧
    (2 ≤ pnls.length → (∀ v ∈ pnls, ∀ w ∈ pnls, v = w) →
      ((record pnls).sharpeRatio : Extended ℝ) =
        .infinite (decide ((record pnls).totalPnl < 0))) ∧
    ((∃ v ∈ pnls, ∃ w ∈ pnls, v ≠ w) → 0 < (record pnls).spread ∧
      ∃ s : ℝ, (record pnls).sharpeRatio = .finite s ∧
        s ^ 2 * (pnls.length * (record pnls).spread) =
          252 * (pnls.length - 1) * (record pnls).totalPnl ^ 2 ∧
        (0 < s ↔ 0 < (record pnls).totalPnl) ∧ (s < 0 ↔ (record pnls).totalPnl < 0)) ∧
    (∀ pnls' : List ℤ, pnls'.Perm pnls →
      ((record pnls').sharpeRatio : Extended ℝ) = (record pnls).sharpeRatio) ∧
    ∀ c : ℤ, 0 < c →
      ((record (pnls.map (c * ·))).sharpeRatio : Extended ℝ) = (record pnls).sharpeRatio := by
  refine ⟨sharpeRatio_of_lt, ?_, ?_, fun pnls' => sharpeRatio_of_perm hsize,
    fun c => sharpeRatio_map_mul hsize⟩
  · intro htwo hall
    have hne : pnls ≠ [] := List.ne_nil_of_length_pos (by omega)
    have hlength : (0 : ℝ) < pnls.length := by exact_mod_cast List.length_pos_iff.mpr hne
    have hsign : RunningMoments.mean (reals pnls) < 0 ↔ (record pnls).totalPnl < 0 := by
      rw [← Int.cast_lt_zero (R := ℝ), ← length_mul_mean hne, mul_neg_iff]
      simp [hlength, hlength.not_gt]
    rw [sharpeRatio_record htwo hsize, if_pos ((sumSq_eq_zero_iff pnls).mpr hall)]
    exact congrArg Extended.infinite (decide_eq_decide.mpr hsign)
  · rintro ⟨v, hv, w, hw, hdiffer⟩
    have hne : RunningMoments.sumSq (reals pnls) ≠ 0 :=
      fun hzero => hdiffer ((sumSq_eq_zero_iff pnls).mp hzero v hv w hw)
    have htwo : 2 ≤ pnls.length := two_le_length hv hw hdiffer
    have hspread : 0 < (record pnls).spread := by
      have hlength : (0 : ℝ) < pnls.length := by exact_mod_cast (by omega : 0 < pnls.length)
      have hsum := one_le_two_mul_sumSq hne
      rw [← Int.cast_pos (R := ℝ), ← length_mul_sumSq]
      exact mul_pos hlength (by linarith)
    exact ⟨hspread, _, (sharpeRatio_record htwo hsize).trans (if_neg hne),
      ratio_of_totals htwo hne⟩

/-- Profits of 10, 20 and 30. -/
theorem sharpeRatio_of_totals_threeDays :
    [(10 : ℤ), 20, 30].length < 2 ^ 64 ∧
      ∃ s : ℝ, (record [10, 20, 30]).sharpeRatio = .finite s ∧ s ^ 2 = 1008 ∧ 0 < s := by
  obtain ⟨-, -, hdiffer, -⟩ := sharpeRatio_of_totals [10, 20, 30] (by decide)
  obtain ⟨-, s, hs, hsquare, hsign, -⟩ := hdiffer ⟨10, by decide, 20, by decide, by decide⟩
  refine ⟨by decide, s, hs, ?_, hsign.mpr (by decide)⟩
  have hspread : (record [10, 20, 30]).spread = 600 := by decide
  have htotal : (record [10, 20, 30]).totalPnl = 60 := by decide
  rw [hspread, htotal] at hsquare
  norm_num at hsquare
  linarith

end MetricsReport

end QuantTrade
