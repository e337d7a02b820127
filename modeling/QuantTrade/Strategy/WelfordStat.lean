import Mathlib.Algebra.Field.Rat
import Mathlib.Algebra.Order.Ring.Rat
import Mathlib.Data.List.Induction
import Mathlib.Tactic.Linarith
import QuantTrade.Common.Doubles
import QuantTrade.Library.RunningMoments

/-!
# The rolling statistics of a spread

`StatArb::WelfordStat` of `src/strategy/stat_arb.{hpp,cpp}`: while the window fills, the mean and
the sum of squares are those of the samples; later both decay.  `variance` divides by the number of
samples less one only while the window is not full, so it is the variance of the samples up to the
last sample of the window, and with that one the sum of squares itself (`variance_iff`).
-/

namespace QuantTrade

/-- The statistics: while the window fills, `m2` is the sum of squares; then it is the variance. -/
structure WelfordStat (F : Type) where
  mean : F
  m2 : F
  count : ℕ
  window : ℕ
  deriving DecidableEq

namespace WelfordStat

section Doubles

variable {F : Type} [Doubles F]

open Doubles

/-- No samples. -/
def init (window : ℕ) : WelfordStat F where
  mean := lit 0
  m2 := lit 0
  count := 0
  window := window

/-- `update`. -/
def update (w : WelfordStat F) (x : F) : WelfordStat F :=
  if w.count < w.window then
    let count := w.count + 1
    let delta := x - w.mean
    let mean := w.mean + delta / ofInt count
    let delta2 := x - mean
    { w with count := count, mean := mean, m2 := w.m2 + delta * delta2 }
  else
    let alpha : F := lit 2 / (ofInt w.window + lit 1)
    let delta := x - w.mean
    { w with
      mean := w.mean + alpha * delta
      m2 := (lit 1 - alpha) * (w.m2 + alpha * delta * delta) }

/-- `variance`. -/
def variance (w : WelfordStat F) : F :=
  if w.count < 2 then lit 1
  else if w.count < w.window then w.m2 / ofInt (w.count - 1)
  else w.m2

/-- `stddev`. -/
def stddev (w : WelfordStat F) : F :=
  if lt (lit 0) w.variance then sqrt w.variance else lit 1

end Doubles

/-! ## While the window fills -/

open RunningMoments (sumSq mean_concat sumSq_concat sumSq_eq_zero_iff)

/-- The statistics of these samples. -/
structure Of (xs : List ℚ) (w : WelfordStat ℚ) : Prop where
  mean_eq : w.mean = RunningMoments.mean xs
  m2_eq : w.m2 = sumSq xs
  count_eq : w.count = xs.length

/-- One more sample, as long as there is room in the window. -/
lemma Of.update {xs : List ℚ} {w : WelfordStat ℚ} (h : w.Of xs) (hroom : xs.length < w.window)
    (x : ℚ) : (w.update x).Of (xs ++ [x]) ∧ (w.update x).window = w.window := by
  have hcount : ((w.count + 1 : ℕ) : ℤ) = (xs.length : ℤ) + 1 := by rw [h.count_eq]; rfl
  have hmean : w.mean + (x - w.mean) / (((w.count + 1 : ℕ) : ℤ) : ℚ) =
      RunningMoments.mean (xs ++ [x]) := by
    rw [mean_concat, h.mean_eq, hcount]
    push_cast
    rfl
  rw [WelfordStat.update, if_pos (h.count_eq ▸ hroom)]
  refine ⟨⟨hmean, ?_, ?_⟩, rfl⟩
  · change w.m2 + (x - w.mean) * (x - (w.mean + (x - w.mean) / (((w.count + 1 : ℕ) : ℤ) : ℚ))) = _
    rw [hmean, sumSq_concat, h.m2_eq, h.mean_eq]
  · change w.count + 1 = _
    rw [h.count_eq, List.length_append, List.length_singleton]

/-- The samples of a window. -/
lemma of_foldl_update {window : ℕ} {xs : List ℚ} (hlength : xs.length ≤ window) :
    (xs.foldl WelfordStat.update (init window)).Of xs ∧
      (xs.foldl WelfordStat.update (init window)).window = window := by
  induction xs using List.reverseRecOn with
  | nil => exact ⟨⟨by simp [init, RunningMoments.mean, Doubles.lit], rfl, rfl⟩, rfl⟩
  | append_singleton xs x ih =>
    rw [List.length_append, List.length_singleton] at hlength
    obtain ⟨hof, hwindow⟩ := ih (by omega)
    rw [List.foldl_append, List.foldl_cons, List.foldl_nil]
    obtain ⟨hnext, hsame⟩ := hof.update (by omega) x
    exact ⟨hnext, hsame.trans hwindow⟩

/-- A sum of squares is not changed by the division when there is nothing to divide. -/
lemma eq_div_sub_one_iff {q : ℚ} {n : ℕ} (hn : 2 ≤ n) : q = q / (n - 1) ↔ n = 2 ∨ q = 0 := by
  have hpos : (0 : ℚ) < n - 1 := by
    have htwo : (2 : ℚ) ≤ n := by exact_mod_cast hn
    linarith
  have hone : (n : ℚ) - 1 = 1 ↔ n = 2 := by
    rw [sub_eq_iff_eq_add, one_add_one_eq_two]
    exact_mod_cast Iff.rfl
  rw [eq_div_iff hpos.ne', ← hone]
  exact mul_right_eq_self₀

/-- **The rolling statistics.**  In exact arithmetic, after at least two samples and no more than
the window holds, the mean is that of the samples; the variance is theirs exactly when there is room
for another sample, or the window is for two samples only, or the samples are all the same. -/
theorem variance_iff {window : ℕ} {xs : List ℚ} (htwo : 2 ≤ xs.length)
    (hlength : xs.length ≤ window) :
    let w := xs.foldl WelfordStat.update (init window)
    (w.mean = xs.sum / xs.length ∧
        w.variance = (xs.map fun x => (x - xs.sum / xs.length) ^ 2).sum / (xs.length - 1)) ↔
      xs.length < window ∨ window = 2 ∨ ∀ x ∈ xs, ∀ y ∈ xs, x = y := by
  intro w
  obtain ⟨⟨hmean, hm2, hcount⟩, hsame⟩ := of_foldl_update hlength
  have hmany : ¬w.count < 2 := by
    rw [hcount]
    omega
  rw [and_iff_right (show w.mean = xs.sum / xs.length from hmean), variance, if_neg hmany]
  by_cases hroom : xs.length < window
  · -- the sum of squares is divided
    rw [if_pos (by rwa [hcount, hsame])]
    refine iff_of_true ?_ (Or.inl hroom)
    rw [hm2]
    change sumSq xs / (((w.count : ℤ) - 1 : ℤ) : ℚ) = sumSq xs / (xs.length - 1)
    rw [hcount]
    push_cast
    rfl
  · -- the window is full
    have hfull : xs.length = window := by omega
    rw [if_neg (by rwa [hcount, hsame]), hm2]
    change sumSq xs = sumSq xs / (xs.length - 1) ↔ _
    rw [eq_div_sub_one_iff htwo, sumSq_eq_zero_iff, hfull]
    simp

/-- The rule for two samples in a window of three. -/
theorem variance_iff_twoSamples :
    let w := [1, 3].foldl WelfordStat.update (init (F := ℚ) 3)
    (w.mean = ([1, 3] : List ℚ).sum / ([1, 3] : List ℚ).length ∧
        w.variance =
          (([1, 3] : List ℚ).map fun x =>
            (x - ([1, 3] : List ℚ).sum / ([1, 3] : List ℚ).length) ^ 2).sum /
              (([1, 3] : List ℚ).length - 1)) ↔
      ([1, 3] : List ℚ).length < 3 ∨ 3 = 2 ∨
        ∀ x ∈ ([1, 3] : List ℚ), ∀ y ∈ ([1, 3] : List ℚ), x = y :=
  variance_iff (by decide) (by decide)

/-- The samples 1, 2, 3 fill a window of three: the variance is 2, and not 1. -/
theorem not_variance_fullWindow :
    ¬∀ (window : ℕ), 2 ≤ window → ∀ xs : List ℚ, 2 ≤ xs.length → xs.length ≤ window →
      let w := xs.foldl WelfordStat.update (init window)
      w.mean = xs.sum / xs.length ∧
        w.variance = (xs.map fun x => (x - xs.sum / xs.length) ^ 2).sum / (xs.length - 1) := by
  intro h
  exact absurd (h 3 (by decide) [1, 2, 3] (by decide) (by decide)).2 (by decide +kernel)

end WelfordStat

end QuantTrade
