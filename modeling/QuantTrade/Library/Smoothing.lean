import Mathlib.Algebra.BigOperators.Fin
import Mathlib.Algebra.Order.Field.Basic
import Mathlib.Analysis.Convex.Basic
import Mathlib.Tactic.Linarith
import Mathlib.Tactic.Ring

/-!
# Exponential smoothing

An average that moves a fixed part of the way to each new sample.  It is the first sample and the
later ones with weights that shrink by the same factor with their age (`average_cons`), and it stays
between bounds of the samples (`average_mem_Icc`).
-/

namespace Smoothing

section Weights

variable {K : Type*} [CommRing K]

/-- The average moves the part `α` of its way to the sample. -/
def smooth (α average sample : K) : K :=
  average + α * (sample - average)

/-- The smoothed average of the samples: it starts at the first of them; without a sample it is 0.
-/
def average (α : K) : List K → K
  | [] => 0
  | x :: xs => xs.foldl (smooth α) x

@[simp] lemma average_singleton (α x : K) : average α [x] = x := rfl

/-- One more sample. -/
lemma average_concat (α : K) {xs : List K} (hne : xs ≠ []) (x : K) :
    average α (xs ++ [x]) = smooth α (average α xs) x := by
  obtain ⟨y, ys, rfl⟩ := List.exists_cons_of_ne_nil hne
  exact List.foldl_concat ..

/-- The weight of a sample is `α`, times `1 - α` for each later one; the first sample has what is
left. -/
theorem average_cons (α x : K) (xs : List K) :
    average α (x :: xs) =
      (1 - α) ^ xs.length * x +
        ∑ i : Fin xs.length, α * (1 - α) ^ (xs.length - 1 - i) * xs[i] := by
  change xs.foldl (smooth α) x = _
  induction xs generalizing x with
  | nil => simp
  | cons y ys ih =>
    have hshift : ∀ i : Fin ys.length, ys.length + 1 - 1 - (i + 1) = ys.length - 1 - i :=
      fun i => by omega
    rw [List.foldl_cons, ih (smooth α x y)]
    simp only [List.length_cons, Fin.sum_univ_succ, Fin.getElem_fin, Fin.val_zero, Fin.val_succ,
      List.getElem_cons_zero, List.getElem_cons_succ, hshift]
    rw [smooth, ← add_assoc]
    congr 1
    rw [Nat.add_sub_cancel, Nat.sub_zero]
    ring

end Weights

section Bounds

variable {K : Type*} [Field K] [LinearOrder K] [IsStrictOrderedRing K] {α lo hi : K}

/-- An average between two bounds stays there with a sample between them. -/
lemma smooth_mem_Icc (hα : α ∈ Set.Icc 0 1) {average sample : K}
    (haverage : average ∈ Set.Icc lo hi) (hsample : sample ∈ Set.Icc lo hi) :
    smooth α average sample ∈ Set.Icc lo hi :=
  (convex_Icc lo hi).add_smul_sub_mem haverage hsample hα

/-- The average of samples between two bounds is between them. -/
theorem average_mem_Icc (hα : α ∈ Set.Icc 0 1) {xs : List K} (hne : xs ≠ [])
    (hxs : ∀ x ∈ xs, x ∈ Set.Icc lo hi) : average α xs ∈ Set.Icc lo hi := by
  induction xs using List.reverseRecOn with
  | nil => exact absurd rfl hne
  | append_singleton xs x ih =>
    have hx := hxs x (List.mem_append_right _ List.mem_cons_self)
    by_cases hempty : xs = []
    · rwa [hempty, List.nil_append, average_singleton]
    · rw [average_concat α hempty]
      exact smooth_mem_Icc hα (ih hempty fun y hy => hxs y (List.mem_append_left _ hy)) hx

/-- The part `2 / (n + 1)`, for smoothing over about `n` samples. -/
lemma two_div_mem_Icc {n : K} (hn : 1 ≤ n) : 2 / (n + 1) ∈ Set.Icc (0 : K) 1 := by
  have hpos : 0 < n + 1 := by linarith
  refine ⟨div_nonneg zero_le_two hpos.le, (div_le_one hpos).mpr ?_⟩
  linarith

end Bounds

end Smoothing
