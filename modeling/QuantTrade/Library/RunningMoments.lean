import Mathlib.Algebra.BigOperators.Group.List.Basic
import Mathlib.Algebra.BigOperators.Ring.List
import Mathlib.Algebra.Order.BigOperators.Group.List
import Mathlib.Algebra.Order.Field.Basic
import Mathlib.Data.Nat.Cast.Order.Field
import Mathlib.Tactic.FieldSimp
import Mathlib.Tactic.Linarith
import Mathlib.Tactic.Ring

/-!
# Mean and sum of squares, sample by sample

The mean of a list of samples and the sum of the squares of their distances from it.  One more
sample changes both by what a single pass knows: the old mean, the new sample and the number of
samples (`mean_concat`, `sumSq_concat`).
-/

namespace RunningMoments

variable {K : Type*} [Field K]

/-- The mean of the samples; without a sample it is 0. -/
def mean (xs : List K) : K :=
  xs.sum / xs.length

/-- The sum of the squared distances from the mean. -/
def sumSq (xs : List K) : K :=
  (xs.map fun x => (x - mean xs) ^ 2).sum

/-- The squared distances from any point, in terms of the first two moments. -/
lemma sum_map_sub_sq (xs : List K) (c : K) :
    (xs.map fun x => (x - c) ^ 2).sum =
      (xs.map (· ^ 2)).sum - 2 * c * xs.sum + xs.length * c ^ 2 := by
  induction xs with
  | nil => simp
  | cons x xs ih =>
    simp only [List.map_cons, List.sum_cons, List.length_cons, ih, Nat.cast_succ]
    ring

/-- The order of the samples does not matter. -/
lemma mean_of_perm {xs ys : List K} (h : xs.Perm ys) : mean xs = mean ys := by
  rw [mean, mean, h.sum_eq, h.length_eq]

lemma sumSq_of_perm {xs ys : List K} (h : xs.Perm ys) : sumSq xs = sumSq ys := by
  rw [sumSq, sumSq, mean_of_perm h]
  exact (h.map _).sum_eq

/-- Samples in another unit. -/
lemma mean_map_mul (c : K) (xs : List K) : mean (xs.map (c * ·)) = c * mean xs := by
  rw [mean, mean, List.sum_map_mul_left, List.map_id', List.length_map, mul_div_assoc]

lemma sumSq_map_mul (c : K) (xs : List K) : sumSq (xs.map (c * ·)) = c ^ 2 * sumSq xs := by
  rw [sumSq, sumSq, mean_map_mul, List.map_map, ← List.sum_map_mul_left]
  congr 1
  refine List.map_congr_left fun x _ => ?_
  rw [Function.comp_apply, ← mul_sub, mul_pow]

/-- No sum of squares is negative. -/
lemma sumSq_nonneg [LinearOrder K] [IsStrictOrderedRing K] (xs : List K) : 0 ≤ sumSq xs := by
  refine List.sum_nonneg fun y hy => ?_
  obtain ⟨z, -, rfl⟩ := List.mem_map.mp hy
  exact sq_nonneg _

variable [CharZero K]

/-- The mean with one more sample. -/
theorem mean_concat (xs : List K) (x : K) :
    mean (xs ++ [x]) = mean xs + (x - mean xs) / (xs.length + 1) := by
  have hsucc : (xs.length : K) + 1 ≠ 0 := Nat.cast_add_one_ne_zero _
  rcases eq_or_ne xs [] with rfl | hne
  · simp [mean]
  · have hlength : (xs.length : K) ≠ 0 := by
      rw [Nat.cast_ne_zero]
      exact List.length_pos_iff.mpr hne |>.ne'
    simp only [mean, List.sum_append, List.sum_singleton, List.length_append,
      List.length_singleton, Nat.cast_add, Nat.cast_one]
    field_simp
    ring

/-- The sum of squares with one more sample. -/
theorem sumSq_concat (xs : List K) (x : K) :
    sumSq (xs ++ [x]) = sumSq xs + (x - mean xs) * (x - mean (xs ++ [x])) := by
  have hsucc : (xs.length : K) + 1 ≠ 0 := Nat.cast_add_one_ne_zero _
  rcases eq_or_ne xs [] with rfl | hne
  · simp [sumSq, mean]
  · have hlength : (xs.length : K) ≠ 0 := by
      rw [Nat.cast_ne_zero]
      exact List.length_pos_iff.mpr hne |>.ne'
    simp only [sumSq, sum_map_sub_sq, mean, List.map_append, List.map_cons, List.map_nil,
      List.sum_append, List.sum_singleton, List.length_append, List.length_singleton, Nat.cast_add,
      Nat.cast_one]
    field_simp
    ring

/-- The sum of squares in terms of the first two moments. -/
lemma length_mul_sumSq (xs : List K) :
    xs.length * sumSq xs = xs.length * (xs.map (· ^ 2)).sum - xs.sum ^ 2 := by
  rcases eq_or_ne xs [] with rfl | hne
  · simp
  · have hlength : (xs.length : K) ≠ 0 := by
      rw [Nat.cast_ne_zero]
      exact List.length_pos_iff.mpr hne |>.ne'
    rw [sumSq, sum_map_sub_sq, mean]
    field_simp
    ring

/-- Two samples that differ are together at least as far from the mean as from their own middle. -/
lemma sq_sub_le_two_mul_sumSq [LinearOrder K] [IsStrictOrderedRing K] {xs : List K} {x y : K}
    (hx : x ∈ xs) (hy : y ∈ xs) (hne : y ≠ x) : (x - y) ^ 2 ≤ 2 * sumSq xs := by
  classical
  have hperm : xs.Perm (x :: y :: (xs.erase x).erase y) :=
    (List.perm_cons_erase hx).trans
      ((List.perm_cons_erase ((List.mem_erase_of_ne hne).mpr hy)).cons x)
  have hsum : sumSq xs = (x - mean xs) ^ 2 + ((y - mean xs) ^ 2 +
      (((xs.erase x).erase y).map fun z => (z - mean xs) ^ 2).sum) := by
    rw [sumSq, (hperm.map _).sum_eq, List.map_cons, List.map_cons, List.sum_cons, List.sum_cons]
  have hrest : 0 ≤ (((xs.erase x).erase y).map fun z => (z - mean xs) ^ 2).sum := by
    refine List.sum_nonneg fun w hw => ?_
    obtain ⟨z, -, rfl⟩ := List.mem_map.mp hw
    exact sq_nonneg _
  have hmiddle : (x - y) ^ 2 ≤ 2 * ((x - mean xs) ^ 2 + (y - mean xs) ^ 2) := by
    have hsq := sq_nonneg ((x - mean xs) + (y - mean xs))
    have hsplit : 2 * ((x - mean xs) ^ 2 + (y - mean xs) ^ 2) =
        (x - y) ^ 2 + ((x - mean xs) + (y - mean xs)) ^ 2 := by ring
    linarith
  rw [hsum]
  linarith

/-- The sum of squares is zero for samples that are all the same, and for no others. -/
lemma sumSq_eq_zero_iff [LinearOrder K] [IsStrictOrderedRing K] {xs : List K} :
    sumSq xs = 0 ↔ ∀ x ∈ xs, ∀ y ∈ xs, x = y := by
  constructor
  · intro h
    have hmean : ∀ x ∈ xs, x = mean xs := by
      intro x hx
      have hle : (x - mean xs) ^ 2 ≤ sumSq xs := by
        refine List.single_le_sum (fun y hy => ?_) _ (List.mem_map_of_mem hx)
        obtain ⟨z, -, rfl⟩ := List.mem_map.mp hy
        exact sq_nonneg _
      rw [h] at hle
      exact sub_eq_zero.mp (pow_eq_zero_iff two_ne_zero |>.mp (le_antisymm hle (sq_nonneg _)))
    intro x hx y hy
    rw [hmean x hx, hmean y hy]
  · intro h
    cases xs with
    | nil => rfl
    | cons a xs =>
      have hall : a :: xs = List.replicate (xs.length + 1) a :=
        List.eq_replicate_iff.mpr ⟨rfl, fun x hx => h x hx a List.mem_cons_self⟩
      have hsucc : (xs.length : K) + 1 ≠ 0 := Nat.cast_add_one_ne_zero _
      have hmean : mean (a :: xs) = a := by
        rw [hall, mean, List.sum_replicate, List.length_replicate, nsmul_eq_mul, Nat.cast_succ,
          mul_div_cancel_left₀ a hsucc]
      rw [sumSq, hmean]
      refine List.sum_eq_zero fun y hy => ?_
      obtain ⟨x, hx, rfl⟩ := List.mem_map.mp hy
      rw [h x hx a List.mem_cons_self, sub_self, zero_pow two_ne_zero]

end RunningMoments
