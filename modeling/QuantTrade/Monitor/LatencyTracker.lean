import Mathlib.Algebra.Order.Floor.Semiring
import Mathlib.Data.List.Rotate
import Mathlib.Data.Rat.Floor
import Mathlib.Tactic.Linarith
import Mathlib.Tactic.NormNum
import Mathlib.Tactic.Positivity
import QuantTrade.Library.OrderStatistic
import QuantTrade.Library.RingIndex
import QuantTrade.Library.Transition

/-!
# The latency tracker

`LatencyTracker` of `src/monitor/latency_tracker.cpp`: a circular buffer of samples that overwrites
the oldest one when it is full, and the statistics of what it holds.  A window of size 0 is one of
size 1.

The samples in use are the most recent ones since the last reset, in some order (`perm_recent`), so
the statistics are those of the most recent samples (`statistics_of_recent`).
-/

namespace QuantTrade

open OrderStatistic (IsRank)

/-- `LatencyTracker`; the buffer is as long as the window, and not empty. -/
structure LatencyTracker where
  windowSize : ℕ
  samples : List ℕ
  count : ℕ
  windowSize_pos : 0 < windowSize
  length_samples : samples.length = windowSize

namespace LatencyTracker

/-- The constructor. -/
def new (windowSize : ℕ) : LatencyTracker where
  windowSize := if windowSize > 0 then windowSize else 1
  samples := List.replicate (if windowSize > 0 then windowSize else 1) 0
  count := 0
  windowSize_pos := by split_ifs <;> omega
  length_samples := List.length_replicate

/-- `record`. -/
def record (t : LatencyTracker) (latencyNs : ℕ) : LatencyTracker where
  windowSize := t.windowSize
  samples := t.samples.set (t.count % t.windowSize) latencyNs
  count := t.count + 1
  windowSize_pos := t.windowSize_pos
  length_samples := by rw [List.length_set, t.length_samples]

/-- `reset`. -/
def reset (t : LatencyTracker) : LatencyTracker where
  windowSize := t.windowSize
  samples := List.replicate t.samples.length 0
  count := 0
  windowSize_pos := t.windowSize_pos
  length_samples := by rw [List.length_replicate, t.length_samples]

/-- The number of samples in use, `n` in the source. -/
def inUse (t : LatencyTracker) : ℕ :=
  if t.count < t.windowSize then t.count else t.windowSize

/-- `p` clamped to the unit interval. -/
def clamped (p : ℚ) : ℚ :=
  if p < 0 then 0 else if p > 1 then 1 else p

/-- The index of a percentile among `n` sorted samples. -/
def percentileIndex (n : ℕ) (p : ℚ) : ℕ :=
  let idx := ⌊clamped p * (n - 1 : ℕ) + 1 / 2⌋₊
  if idx < n then idx else n - 1

/-- `percentile`. -/
def percentile (t : LatencyTracker) (p : ℚ) : ℕ :=
  let n := t.inUse
  if n = 0 then 0
  else
    let tmp := (t.samples.take n).insertionSort (· ≤ ·)
    tmp.getD (percentileIndex n p) 0

/-- `min_ns`. -/
def minNs (t : LatencyTracker) : ℕ :=
  let n := t.inUse
  if n = 0 then 0 else (t.samples.take n).min?.getD 0

/-- `max_ns`. -/
def maxNs (t : LatencyTracker) : ℕ :=
  let n := t.inUse
  if n = 0 then 0 else (t.samples.take n).max?.getD 0

/-- `mean_ns`; the sum is accumulated in 64 bits. -/
def meanNs (t : LatencyTracker) : ℚ :=
  let n := t.inUse
  if n = 0 then 0 else (((t.samples.take n).sum % 2 ^ 64 : ℕ) : ℚ) / n

/-- What the users of a tracker do to it. -/
inductive Call where
  | record (latencyNs : ℕ)
  | reset

/-- One call. -/
def step (t : LatencyTracker) : Call → LatencyTracker
  | .record latencyNs => t.record latencyNs
  | .reset => t.reset

/-- The samples recorded since the last reset, the most recent one last. -/
def sinceReset (calls : List Call) : List ℕ :=
  Transition.run (fun log c => match c with
    | .record latencyNs => log ++ [latencyNs]
    | .reset => []) [] calls

/-- The last `n` of some samples. -/
def mostRecent (n : ℕ) (log : List ℕ) : List ℕ :=
  log.drop (log.length - n)

/-! ## The circular buffer -/

/-- The tracker has counted the samples, and each of the most recent ones is in its slot. -/
structure Holds (t : LatencyTracker) (log : List ℕ) : Prop where
  count_eq : t.count = log.length
  slot : ∀ i sample, log[i]? = some sample → log.length ≤ i + t.windowSize →
    t.samples[i % t.windowSize]? = some sample

lemma holds_new (windowSize : ℕ) : (new windowSize).Holds [] where
  count_eq := rfl
  slot i sample h := by simp at h

lemma Holds.reset {t : LatencyTracker} : t.reset.Holds [] where
  count_eq := rfl
  slot i sample h := by simp at h

/-- A sample that is recorded goes over the one that leaves the window. -/
lemma Holds.record {t : LatencyTracker} {log : List ℕ} (h : t.Holds log) (latencyNs : ℕ) :
    (t.record latencyNs).Holds (log ++ [latencyNs]) where
  count_eq := by
    rw [List.length_append, List.length_singleton, ← h.count_eq]
    rfl
  slot i sample hi hwindow := by
    simp only [LatencyTracker.record, List.length_append, List.length_singleton, h.count_eq]
      at hwindow ⊢
    rcases RingIndex.getElem?_concat_eq_some hi with hold | ⟨rfl, rfl⟩
    · have hlt := (List.getElem?_eq_some_iff.mp hold).1
      have hne : i % t.windowSize ≠ log.length % t.windowSize :=
        RingIndex.mod_ne_mod hlt (by omega)
      rw [List.getElem?_set_ne hne.symm]
      exact h.slot i sample hold (by omega)
    · rw [List.getElem?_set_self]
      rw [t.length_samples]
      exact Nat.mod_lt _ t.windowSize_pos

/-- The tracker holds the samples since the last reset, in any run. -/
lemma holds_run (windowSize : ℕ) (calls : List Call) :
    (Transition.run step (new windowSize) calls).Holds (sinceReset calls) := by
  induction calls using List.reverseRecOn with
  | nil => exact holds_new windowSize
  | append_singleton calls c ih =>
    rw [sinceReset, Transition.run_concat, Transition.run_concat]
    cases c with
    | record latencyNs => exact ih.record latencyNs
    | reset => exact Holds.reset

/-- No call changes the size of the window. -/
lemma windowSize_run (windowSize : ℕ) (calls : List Call) :
    (Transition.run step (new windowSize) calls).windowSize = max windowSize 1 := by
  refine Transition.invariant_run_of_step
    (P := fun t : LatencyTracker => t.windowSize = max windowSize 1) (fun t c h => ?_) ?_ calls
  · cases c <;> exact h
  · simp only [new]
    split_ifs <;> omega

section Window

variable {t : LatencyTracker} {log : List ℕ}

lemma Holds.inUse_eq (h : t.Holds log) : t.inUse = min log.length t.windowSize := by
  rw [inUse, h.count_eq]
  split_ifs <;> omega

/-- **The window.**  The samples in use are the most recent ones, in some order. -/
theorem perm_recent (h : t.Holds log) :
    (t.samples.take t.inUse).Perm (mostRecent t.inUse log) := by
  have hlen := t.length_samples
  have hpos := t.windowSize_pos
  rcases Nat.lt_or_ge log.length t.windowSize with hlt | hge
  · -- nothing was overwritten
    have hn : t.inUse = log.length := by rw [h.inUse_eq]; omega
    have heq : t.samples.take log.length = log := by
      refine List.ext_getElem (by rw [List.length_take]; omega) fun i hi hi' => ?_
      have hslot := h.slot i log[i] (List.getElem?_eq_getElem hi') (by omega)
      rw [Nat.mod_eq_of_lt (by omega), List.getElem?_eq_some_iff] at hslot
      rw [List.getElem_take]
      exact hslot.2
    rw [hn, heq, mostRecent, Nat.sub_self, List.drop_zero]
  · -- the buffer is full, and begins somewhere in the middle
    have hn : t.inUse = t.windowSize := by rw [h.inUse_eq]; omega
    have heq : t.samples.rotate log.length = log.drop (log.length - t.windowSize) := by
      refine List.ext_getElem (by rw [List.length_rotate, List.length_drop]; omega)
        fun i hi hi' => ?_
      rw [List.length_rotate] at hi
      rw [List.getElem_rotate, List.getElem_drop]
      have hslot := h.slot (log.length - t.windowSize + i) _ (List.getElem?_eq_getElem (by omega))
        (by omega)
      have hmod : (log.length - t.windowSize + i) % t.windowSize =
          (i + log.length) % t.samples.length := by
        rw [hlen, ← Nat.add_mod_right (log.length - t.windowSize + i)]
        congr 1
        omega
      rw [hmod, List.getElem?_eq_some_iff] at hslot
      exact hslot.2
    rw [hn, mostRecent, ← heq, List.take_of_length_le hlen.le]
    exact (List.rotate_perm _ _).symm

end Window

/-! ## The index of a percentile -/

lemma clamped_mono : Monotone clamped := by
  intro p q hpq
  unfold clamped
  split_ifs <;> linarith

lemma percentileIndex_mono (n : ℕ) : Monotone (percentileIndex n) := by
  intro p q hpq
  have hfloor : ⌊clamped p * (n - 1 : ℕ) + 1 / 2⌋₊ ≤ ⌊clamped q * (n - 1 : ℕ) + 1 / 2⌋₊ := by
    refine Nat.floor_mono (add_le_add ?_ le_rfl)
    exact mul_le_mul_of_nonneg_right (clamped_mono hpq) (Nat.cast_nonneg _)
  simp only [percentileIndex]
  split_ifs <;> omega

lemma percentileIndex_lt {n : ℕ} (hn : n ≠ 0) (p : ℚ) : percentileIndex n p < n := by
  simp only [percentileIndex]
  split_ifs <;> omega

/-- Percentile 0 is the first of the sorted samples. -/
lemma percentileIndex_zero (n : ℕ) : percentileIndex n 0 = 0 := by
  have hclamped : clamped 0 = 0 := by norm_num [clamped]
  have hfloor : ⌊clamped 0 * (n - 1 : ℕ) + 1 / 2⌋₊ = 0 := by
    rw [Nat.floor_eq_zero, hclamped]
    norm_num
  simp only [percentileIndex, hfloor]
  split_ifs <;> omega

/-- Percentile 1 is the last of the sorted samples. -/
lemma percentileIndex_one (n : ℕ) : percentileIndex n 1 = n - 1 := by
  have hclamped : clamped 1 = 1 := by norm_num [clamped]
  have hfloor : ⌊clamped 1 * (n - 1 : ℕ) + 1 / 2⌋₊ = n - 1 := by
    rw [hclamped, one_mul, Nat.floor_eq_iff (by positivity)]
    constructor <;> linarith
  simp only [percentileIndex, hfloor]
  split_ifs <;> omega

/-! ## The statistics -/

section Statistics

variable {t : LatencyTracker}

lemma length_take_inUse (t : LatencyTracker) : (t.samples.take t.inUse).length = t.inUse := by
  rw [List.length_take, t.length_samples, inUse]
  split_ifs <;> omega

/-- A percentile is the value of its index among the samples in use. -/
lemma isRank_percentile (hn : t.inUse ≠ 0) (p : ℚ) :
    IsRank (t.samples.take t.inUse) (percentileIndex t.inUse p) (t.percentile p) := by
  have hlt : percentileIndex t.inUse p <
      ((t.samples.take t.inUse).insertionSort (· ≤ ·)).length := by
    rw [List.length_insertionSort, length_take_inUse]
    exact percentileIndex_lt hn p
  have hget : t.percentile p = ((t.samples.take t.inUse).insertionSort (· ≤ ·))[
      percentileIndex t.inUse p] := by
    simp only [percentile, if_neg hn]
    rw [List.getD_eq_getElem?_getD, List.getElem?_eq_getElem hlt, Option.getD_some]
  rw [hget]
  exact OrderStatistic.isRank_insertionSort hlt

lemma percentile_of_inUse_eq_zero (hn : t.inUse = 0) (p : ℚ) : t.percentile p = 0 := by
  simp only [percentile, if_pos hn]

lemma percentile_mono (t : LatencyTracker) : Monotone t.percentile := by
  intro p q hpq
  by_cases hn : t.inUse = 0
  · rw [percentile_of_inUse_eq_zero hn, percentile_of_inUse_eq_zero hn]
  · exact (isRank_percentile hn p).mono (isRank_percentile hn q) (percentileIndex_mono _ hpq)

/-- The percentile depends on what `p` is clamped to. -/
lemma percentile_congr {p q : ℚ} (h : clamped p = clamped q) : t.percentile p = t.percentile q := by
  simp only [percentile, percentileIndex, h]

lemma percentile_of_neg {p : ℚ} (hp : p < 0) : t.percentile p = t.percentile 0 := by
  refine percentile_congr ?_
  rw [clamped, if_pos hp, clamped, if_neg (lt_irrefl _), if_neg (by norm_num)]

lemma percentile_of_one_lt {p : ℚ} (hp : 1 < p) : t.percentile p = t.percentile 1 := by
  refine percentile_congr ?_
  rw [clamped, if_neg (by linarith), if_pos hp, clamped, if_neg (by norm_num),
    if_neg (lt_irrefl _)]

lemma min?_of_isRank {l : List ℕ} {a : ℕ} (h : IsRank l 0 a) : l.min? = some a :=
  List.min?_eq_some_iff.mpr ⟨h.mem, fun _ hb => h.le_of_mem hb⟩

lemma max?_of_isRank {l : List ℕ} {a : ℕ} (h : IsRank l (l.length - 1) a) : l.max? = some a :=
  List.max?_eq_some_iff.mpr ⟨h.mem, fun _ hb => h.ge_of_mem hb⟩

/-- Percentile 0 is of the first rank. -/
lemma isRank_percentile_zero (hn : t.inUse ≠ 0) :
    IsRank (t.samples.take t.inUse) 0 (t.percentile 0) := by
  have hrank := isRank_percentile hn 0
  rwa [percentileIndex_zero] at hrank

/-- Percentile 1 is of the last rank. -/
lemma isRank_percentile_one (hn : t.inUse ≠ 0) :
    IsRank (t.samples.take t.inUse) ((t.samples.take t.inUse).length - 1) (t.percentile 1) := by
  rw [length_take_inUse, ← percentileIndex_one]
  exact isRank_percentile hn 1

lemma percentile_zero (t : LatencyTracker) : t.percentile 0 = t.minNs := by
  by_cases hn : t.inUse = 0
  · rw [percentile_of_inUse_eq_zero hn, minNs, if_pos hn]
  · rw [minNs, if_neg hn, min?_of_isRank (isRank_percentile_zero hn), Option.getD_some]

lemma percentile_one (t : LatencyTracker) : t.percentile 1 = t.maxNs := by
  by_cases hn : t.inUse = 0
  · rw [percentile_of_inUse_eq_zero hn, maxNs, if_pos hn]
  · rw [maxNs, if_neg hn, max?_of_isRank (isRank_percentile_one hn), Option.getD_some]

/-- The statistics are those of any list that holds the samples in use in some order. -/
lemma minNs_eq_of_perm {recent : List ℕ} (h : (t.samples.take t.inUse).Perm recent) :
    t.minNs = recent.min?.getD 0 := by
  by_cases hn : t.inUse = 0
  · rw [hn, List.take_zero, List.nil_perm] at h
    rw [minNs, if_pos hn, h]
    rfl
  · have hrank := (isRank_percentile_zero hn).perm h
    rw [← percentile_zero, min?_of_isRank hrank, Option.getD_some]

lemma maxNs_eq_of_perm {recent : List ℕ} (h : (t.samples.take t.inUse).Perm recent) :
    t.maxNs = recent.max?.getD 0 := by
  by_cases hn : t.inUse = 0
  · rw [hn, List.take_zero, List.nil_perm] at h
    rw [maxNs, if_pos hn, h]
    rfl
  · have hrank := (isRank_percentile_one hn).perm h
    rw [h.length_eq] at hrank
    rw [← percentile_one, max?_of_isRank hrank, Option.getD_some]

lemma meanNs_eq_of_perm {recent : List ℕ} (h : (t.samples.take t.inUse).Perm recent) :
    t.meanNs = ((recent.sum % 2 ^ 64 : ℕ) : ℚ) / recent.length := by
  have hlength : recent.length = t.inUse := by rw [← h.length_eq, length_take_inUse]
  rw [meanNs, h.sum_eq, hlength]
  split_ifs with hn
  · rw [hn, Nat.cast_zero, div_zero]
  · rfl

end Statistics

/-! ## Runs -/

/-- The samples in use are the most recent ones. -/
lemma perm_recent_run (windowSize : ℕ) (calls : List Call) :
    let t := Transition.run step (new windowSize) calls
    let n := min (sinceReset calls).length (max windowSize 1)
    t.inUse = n ∧ (t.samples.take n).Perm (mostRecent n (sinceReset calls)) := by
  intro t n
  have hn : t.inUse = n := by
    rw [(holds_run windowSize calls).inUse_eq, windowSize_run]
  have hperm : (t.samples.take t.inUse).Perm (mostRecent t.inUse (sinceReset calls)) :=
    perm_recent (holds_run windowSize calls)
  rw [hn] at hperm
  exact ⟨hn, hperm⟩

/-- **The statistics of the most recent samples.**  After any calls, with `n` the number of samples
since the last reset but not more than the window holds, the first `n` samples of the buffer are
the `n` most recent ones in some order.  The minimum, the maximum and the percentiles are those of
these samples; percentile 0 is the minimum and percentile 1 the maximum, and a higher percentile is
not smaller; outside of the unit interval the percentiles are those of its ends.  A window of size
0 holds one sample. -/
theorem statistics_of_recent (windowSize : ℕ) (calls : List Call) :
    let t := Transition.run step (new windowSize) calls
    let n := min (sinceReset calls).length (max windowSize 1)
    let recent := mostRecent n (sinceReset calls)
    (t.samples.take n).Perm recent ∧
    t.minNs = recent.min?.getD 0 ∧ t.maxNs = recent.max?.getD 0 ∧
    (∀ p, (n = 0 ∧ t.percentile p = 0) ∨ IsRank recent (percentileIndex n p) (t.percentile p)) ∧
    t.percentile 0 = t.minNs ∧ t.percentile 1 = t.maxNs ∧ Monotone t.percentile ∧
    (∀ p < 0, t.percentile p = t.percentile 0) ∧ ∀ p > 1, t.percentile p = t.percentile 1 := by
  intro t n recent
  obtain ⟨hn, hperm⟩ : t.inUse = n ∧ (t.samples.take n).Perm recent :=
    perm_recent_run windowSize calls
  refine ⟨hperm, minNs_eq_of_perm (hn ▸ hperm), maxNs_eq_of_perm (hn ▸ hperm), fun p => ?_,
    percentile_zero t, percentile_one t, percentile_mono t, fun p => percentile_of_neg,
    fun p => percentile_of_one_lt⟩
  by_cases hzero : t.inUse = 0
  · exact Or.inl ⟨hn ▸ hzero, percentile_of_inUse_eq_zero hzero p⟩
  · have hrank := isRank_percentile hzero p
    rw [hn] at hrank
    exact Or.inr (hrank.perm hperm)

/-- A window of size 0 is not empty: it holds a sample, whose statistics are reported. -/
theorem minNs_window_zero :
    let calls := [Call.record 5]
    let n := min (sinceReset calls).length 0
    (Transition.run step (new 0) calls).minNs ≠
      (mostRecent n (sinceReset calls)).min?.getD 0 := by
  decide

/-- The mean after any calls is that of the most recent samples, their sum reduced to 64 bits. -/
theorem meanNs_of_recent (windowSize : ℕ) (calls : List Call) :
    let t := Transition.run step (new windowSize) calls
    let n := min (sinceReset calls).length (max windowSize 1)
    let recent := mostRecent n (sinceReset calls)
    t.meanNs = ((recent.sum % 2 ^ 64 : ℕ) : ℚ) / recent.length := by
  intro t n recent
  obtain ⟨hn, hperm⟩ : t.inUse = n ∧ (t.samples.take n).Perm recent :=
    perm_recent_run windowSize calls
  exact meanNs_eq_of_perm (hn ▸ hperm)

end LatencyTracker

end QuantTrade
