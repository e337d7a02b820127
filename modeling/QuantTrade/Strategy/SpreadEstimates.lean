import QuantTrade.Library.Smoothing
import QuantTrade.Strategy.WelfordStat

/-!
# The estimates of a spread over a long run

`WelfordStat` goes on after its window is full: mean and variance then decay.  In exact arithmetic
the mean stays in the range of all samples and the variance is never negative; with the sample that
fills the window the variance may be as many times too large as the window has samples less one,
and what is too much of it shrinks by the same factor with each later sample (`variance_mem_Icc`).
-/

namespace QuantTrade

namespace WelfordStat

open Smoothing (smooth)

/-- The part of the old estimates that is kept with a sample when the window is full. -/
def kept (window : ℕ) : ℚ :=
  1 - 2 / ((window : ℚ) + 1)

/-- The sum of squares after `n` samples is at most this, in squares of the range of the samples. -/
def spreadBound (window n : ℕ) : ℚ :=
  if n ≤ window then n - 1 else kept window + kept window ^ (n - window) * (window - 1)

lemma kept_nonneg {window : ℕ} (hwindow : 1 ≤ window) : 0 ≤ kept window :=
  sub_nonneg.mpr (Smoothing.two_div_mem_Icc (by exact_mod_cast hwindow)).2

/-- The bound of a full window also covers the sample that fills it. -/
lemma spreadBound_le {window n : ℕ} (hwindow : 1 ≤ window) (hfull : window ≤ n) :
    spreadBound window n ≤ kept window + kept window ^ (n - window) * (window - 1) := by
  rw [spreadBound]
  split_ifs with hseam
  · rw [le_antisymm hseam hfull, Nat.sub_self, pow_zero, one_mul]
    linarith [kept_nonneg hwindow]
  · exact le_rfl

/-- The statistics after `n` samples between two bounds. -/
structure Bounded (lo hi : ℚ) (window n : ℕ) (w : WelfordStat ℚ) : Prop where
  window_eq : w.window = window
  count_eq : w.count = min n window
  mean_mem : w.mean ∈ Set.Icc lo hi
  m2_nonneg : 0 ≤ w.m2
  m2_le : w.m2 ≤ spreadBound window n * (hi - lo) ^ 2

variable {lo hi : ℚ} {window n : ℕ} {w : WelfordStat ℚ} {x : ℚ}

/-- The first sample is the mean. -/
lemma bounded_first (hwindow : 1 ≤ window) (hx : x ∈ Set.Icc lo hi) :
    Bounded lo hi window 1 ((init window).update x) := by
  have hfirst : (init window).update x =
      { mean := x, m2 := 0, count := 1, window := window } := by
    rw [update, if_pos (show (init (F := ℚ) window).count < (init (F := ℚ) window).window
      from hwindow)]
    simp [init, Doubles.lit, Doubles.ofInt]
  rw [hfirst]
  refine ⟨rfl, (min_eq_left hwindow).symm, hx, le_rfl, ?_⟩
  rw [spreadBound, if_pos hwindow, Nat.cast_one, sub_self, zero_mul]

/-- Two points of the range are no further apart than its bounds. -/
lemma sq_sub_le {y : ℚ} (hx : x ∈ Set.Icc lo hi) (hy : y ∈ Set.Icc lo hi) :
    (x - y) ^ 2 ≤ (hi - lo) ^ 2 := by
  refine sq_le_sq' ?_ ?_
  · linarith [hx.1, hy.2]
  · linarith [hx.2, hy.1]

/-- One more sample while the window is not full. -/
lemma Bounded.fill (h : Bounded lo hi window n w) (hn : 1 ≤ n) (hroom : n < window)
    (hx : x ∈ Set.Icc lo hi) : Bounded lo hi window (n + 1) (w.update x) := by
  have hcount : w.count = n := h.count_eq.trans (min_eq_left hroom.le)
  have hless : w.count < w.window := by rwa [hcount, h.window_eq]
  have hn' : (1 : ℚ) ≤ n := by exact_mod_cast hn
  have hpart : 1 / ((n : ℚ) + 1) ∈ Set.Icc (0 : ℚ) 1 :=
    ⟨by positivity, (div_le_one (by linarith)).mpr (by linarith)⟩
  have hmean : (w.update x).mean = smooth (1 / ((n : ℚ) + 1)) w.mean x := by
    rw [update, if_pos hless]
    change w.mean + (x - w.mean) / (((w.count + 1 : ℕ) : ℤ) : ℚ) = _
    rw [hcount, smooth]
    push_cast
    ring
  have hdeltas : (w.update x).m2 = w.m2 + (x - w.mean) * (x - (w.update x).mean) := by
    rw [update, if_pos hless]
  have hm2 : (w.update x).m2 = w.m2 + (1 - 1 / ((n : ℚ) + 1)) * (x - w.mean) ^ 2 := by
    rw [hdeltas, hmean, smooth]
    ring
  have hsq := sq_sub_le hx h.mean_mem
  have hle : (1 - 1 / ((n : ℚ) + 1)) * (x - w.mean) ^ 2 ≤ (hi - lo) ^ 2 := by
    refine (mul_le_of_le_one_left (sq_nonneg _) ?_).trans hsq
    linarith [hpart.1]
  refine ⟨?_, ?_, ?_, ?_, ?_⟩
  · rw [update, if_pos hless]
    exact h.window_eq
  · rw [update, if_pos hless, min_eq_left hroom]
    exact congrArg (· + 1) hcount
  · rw [hmean]
    exact Smoothing.smooth_mem_Icc hpart h.mean_mem hx
  · rw [hm2]
    exact add_nonneg h.m2_nonneg (mul_nonneg (by linarith [hpart.2]) (sq_nonneg _))
  · have hbound := h.m2_le
    rw [spreadBound, if_pos hroom.le] at hbound
    rw [hm2, spreadBound, if_pos (show n + 1 ≤ window from hroom)]
    push_cast
    linarith

/-- One more sample when the window is full. -/
lemma Bounded.decay (h : Bounded lo hi window n w) (hwindow : 1 ≤ window) (hfull : window ≤ n)
    (hx : x ∈ Set.Icc lo hi) : Bounded lo hi window (n + 1) (w.update x) := by
  have hcount : w.count = window := h.count_eq.trans (min_eq_right hfull)
  have hnotless : ¬w.count < w.window := by rw [hcount, h.window_eq]; exact lt_irrefl _
  have hwindow' : (1 : ℚ) ≤ window := by exact_mod_cast hwindow
  have hpart := Smoothing.two_div_mem_Icc hwindow'
  have hkept := kept_nonneg hwindow
  have hmean : (w.update x).mean = smooth (2 / ((window : ℚ) + 1)) w.mean x := by
    rw [update, if_neg hnotless, ← h.window_eq]
    rfl
  have hm2 : (w.update x).m2 =
      kept window * (w.m2 + (1 - kept window) * (x - w.mean) ^ 2) := by
    rw [update, if_neg hnotless, kept, ← h.window_eq, sub_sub_cancel, sq, ← mul_assoc]
    rfl
  have hsq := sq_sub_le hx h.mean_mem
  have hshare : (1 - kept window) * (x - w.mean) ^ 2 ≤ (1 - kept window) * (hi - lo) ^ 2 :=
    mul_le_mul_of_nonneg_left hsq (by rw [kept, sub_sub_cancel]; exact hpart.1)
  refine ⟨?_, ?_, ?_, ?_, ?_⟩
  · rw [update, if_neg hnotless]
    exact h.window_eq
  · rw [update, if_neg hnotless, min_eq_right (hfull.trans n.le_succ)]
    exact hcount
  · rw [hmean]
    exact Smoothing.smooth_mem_Icc hpart h.mean_mem hx
  · rw [hm2]
    refine mul_nonneg hkept (add_nonneg h.m2_nonneg (mul_nonneg ?_ (sq_nonneg _)))
    rw [kept, sub_sub_cancel]
    exact hpart.1
  · -- what is kept of the bound before, and the share of the sample
    have hbound : w.m2 ≤
        (kept window + kept window ^ (n - window) * (window - 1)) * (hi - lo) ^ 2 :=
      h.m2_le.trans (mul_le_mul_of_nonneg_right (spreadBound_le hwindow hfull) (sq_nonneg _))
    rw [hm2, spreadBound, if_neg (by omega), Nat.sub_add_comm hfull]
    calc kept window * (w.m2 + (1 - kept window) * (x - w.mean) ^ 2)
        ≤ kept window * ((kept window + kept window ^ (n - window) * (window - 1)) * (hi - lo) ^ 2
            + (1 - kept window) * (hi - lo) ^ 2) :=
          mul_le_mul_of_nonneg_left (add_le_add hbound hshare) hkept
      _ = (kept window + kept window ^ (n - window + 1) * (window - 1)) * (hi - lo) ^ 2 := by
          ring

/-- The statistics of any number of samples between two bounds. -/
lemma bounded_foldl_update (hwindow : 1 ≤ window) {xs : List ℚ} (hne : xs ≠ [])
    (hxs : ∀ x ∈ xs, x ∈ Set.Icc lo hi) :
    Bounded lo hi window xs.length (xs.foldl WelfordStat.update (init window)) := by
  induction xs using List.reverseRecOn with
  | nil => exact absurd rfl hne
  | append_singleton xs x ih =>
    have hx := hxs x (List.mem_append_right _ List.mem_cons_self)
    rw [List.foldl_concat, List.length_append, List.length_singleton]
    by_cases hempty : xs = []
    · rw [hempty]
      exact bounded_first hwindow hx
    · have hbefore := ih hempty fun y hy => hxs y (List.mem_append_left _ hy)
      rcases lt_or_ge xs.length window with hroom | hfull
      · exact hbefore.fill (List.length_pos_iff.mpr hempty) hroom hx
      · exact hbefore.decay hwindow hfull hx

/-- **The estimates over a long run.**  In exact arithmetic, after two or more samples of a range,
however many: the mean is in the range; while the window fills, the variance is between 0 and the
square of the range; from then on it is not negative either, and at most `kept` of the square and
what is left of the window's excess. -/
theorem variance_mem_Icc (hwindow : 2 ≤ window) {xs : List ℚ} (htwo : 2 ≤ xs.length)
    (hxs : ∀ x ∈ xs, x ∈ Set.Icc lo hi) :
    let w := xs.foldl WelfordStat.update (init window)
    w.mean ∈ Set.Icc lo hi ∧
      (xs.length < window → w.variance ∈ Set.Icc 0 ((hi - lo) ^ 2)) ∧
      (window ≤ xs.length → w.variance ∈ Set.Icc 0
        ((kept window + kept window ^ (xs.length - window) * (window - 1)) * (hi - lo) ^ 2)) := by
  intro w
  have hne : xs ≠ [] := by
    rintro rfl
    exact absurd htwo (by decide)
  have hbounded : Bounded lo hi window xs.length w :=
    bounded_foldl_update (by omega) hne hxs
  have hcount := hbounded.count_eq
  have hle := hbounded.m2_le
  have hmany : ¬w.count < 2 := by omega
  refine ⟨hbounded.mean_mem, fun hroom => ?_, fun hfull => ?_⟩
  · -- the sum of squares is divided
    have hcount' : w.count = xs.length := hcount.trans (min_eq_left hroom.le)
    have htwo' : (2 : ℚ) ≤ xs.length := by exact_mod_cast htwo
    have hpos : (0 : ℚ) < xs.length - 1 := by linarith
    have hvariance : w.variance = w.m2 / (xs.length - 1) := by
      rw [variance, if_neg hmany, if_pos (by rwa [hcount', hbounded.window_eq])]
      change w.m2 / (((w.count : ℤ) - 1 : ℤ) : ℚ) = _
      rw [hcount']
      push_cast
      rfl
    rw [spreadBound, if_pos hroom.le] at hle
    rw [hvariance]
    exact ⟨div_nonneg hbounded.m2_nonneg hpos.le, (div_le_iff₀ hpos).mpr (by linarith)⟩
  · -- the window is full
    have hcount' : w.count = window := hcount.trans (min_eq_right hfull)
    have hvariance : w.variance = w.m2 := by
      rw [variance, if_neg hmany, if_neg (by rw [hcount', hbounded.window_eq]; exact lt_irrefl _)]
    rw [hvariance]
    exact ⟨hbounded.m2_nonneg,
      hle.trans (mul_le_mul_of_nonneg_right (spreadBound_le (by omega) hfull) (sq_nonneg _))⟩

/-- The rule for four samples in a window of two. -/
theorem variance_mem_Icc_fourSamples :
    let w := [1, 3, 2, 1].foldl WelfordStat.update (init (F := ℚ) 2)
    w.mean ∈ Set.Icc (1 : ℚ) 3 ∧
      w.variance ∈ Set.Icc 0 ((kept 2 + kept 2 ^ 2 * (2 - 1)) * (3 - 1 : ℚ) ^ 2) := by
  have h := variance_mem_Icc (show 2 ≤ 2 by decide)
    (show 2 ≤ ([1, 3, 2, 1] : List ℚ).length by decide)
    (show ∀ x ∈ ([1, 3, 2, 1] : List ℚ), x ∈ Set.Icc (1 : ℚ) 3 by decide)
  exact ⟨h.1, h.2.2 (by decide)⟩

end WelfordStat

end QuantTrade
