import Mathlib.Data.List.Sort

/-!
# Order statistics

The value of rank `k` of a list is the one at index `k` when the list is sorted.  It is told from
the list by counting (`IsRank`): at most `k` values lie below it, and more than `k` do not lie above
it.  So it does not depend on the order of the list, and it grows with the rank.
-/

namespace OrderStatistic

variable {α : Type*} [LinearOrder α]

/-- The value of rank `k` of a list, counted from 0. -/
structure IsRank (l : List α) (k : ℕ) (a : α) : Prop where
  mem : a ∈ l
  countP_lt_le : l.countP (· < a) ≤ k
  lt_countP_le : k < l.countP (· ≤ a)

variable {l l' : List α} {i j k : ℕ} {a b : α}

/-- The order of the list does not matter. -/
lemma IsRank.perm (h : IsRank l k a) (hperm : l.Perm l') : IsRank l' k a where
  mem := hperm.mem_iff.mp h.mem
  countP_lt_le := hperm.countP_eq (· < a) ▸ h.countP_lt_le
  lt_countP_le := hperm.countP_eq (· ≤ a) ▸ h.lt_countP_le

/-- A higher rank has no smaller value. -/
lemma IsRank.mono (hi : IsRank l i a) (hj : IsRank l j b) (hij : i ≤ j) : a ≤ b := by
  by_contra hlt
  have hle : l.countP (· ≤ b) ≤ l.countP (· < a) := by
    refine List.countP_mono_left fun c _ hc => ?_
    rw [decide_eq_true_eq] at hc ⊢
    exact hc.trans_lt (not_le.mp hlt)
  have := hi.countP_lt_le
  have := hj.lt_countP_le
  omega

/-- The value of the first rank is the least. -/
lemma IsRank.le_of_mem (h : IsRank l 0 a) (hb : b ∈ l) : a ≤ b := by
  have hzero := List.countP_eq_zero.mp (Nat.le_zero.mp h.countP_lt_le) b hb
  rwa [decide_eq_true_eq, not_lt] at hzero

/-- The value of the last rank is the greatest. -/
lemma IsRank.ge_of_mem (h : IsRank l (l.length - 1) a) (hb : b ∈ l) : b ≤ a := by
  have hpos := List.length_pos_of_mem hb
  have hle := List.countP_le_length (p := fun c => decide (c ≤ a)) (l := l)
  have hall : l.countP (· ≤ a) = l.length := by
    have := h.lt_countP_le
    omega
  exact of_decide_eq_true (List.countP_eq_length.mp hall b hb)

/-- In a sorted list the value of a rank is the one at that index. -/
lemma isRank_getElem (hsorted : l.SortedLE) (hk : k < l.length) : IsRank l k l[k] where
  mem := List.getElem_mem hk
  countP_lt_le := by
    have hdrop : (l.drop k).countP (· < l[k]) = 0 := by
      refine List.countP_eq_zero.mpr fun b hb => ?_
      obtain ⟨i, hi, rfl⟩ := List.getElem_of_mem hb
      rw [List.getElem_drop, decide_eq_true_eq, not_lt]
      exact hsorted.getElem_le_getElem_of_le (Nat.le_add_right k i)
    calc l.countP (· < l[k])
        = (l.take k).countP (· < l[k]) + (l.drop k).countP (· < l[k]) := by
          rw [← List.countP_append, List.take_append_drop]
      _ ≤ (l.take k).length + 0 := Nat.add_le_add List.countP_le_length hdrop.le
      _ ≤ k := List.length_take_le k l
  lt_countP_le := by
    have htake : (l.take (k + 1)).countP (· ≤ l[k]) = (l.take (k + 1)).length := by
      refine List.countP_eq_length.mpr fun b hb => ?_
      obtain ⟨i, hi, rfl⟩ := List.getElem_of_mem hb
      rw [List.length_take] at hi
      rw [List.getElem_take, decide_eq_true_eq]
      exact hsorted.getElem_le_getElem_of_le (by omega)
    have hlength : k < (l.take (k + 1)).length := by
      rw [List.length_take]
      omega
    rw [← htake] at hlength
    exact hlength.trans_le (List.take_sublist _ _).countP_le

/-- Sorting a list finds the values of its ranks. -/
lemma isRank_insertionSort (hk : k < (l.insertionSort (· ≤ ·)).length) :
    IsRank l k (l.insertionSort (· ≤ ·))[k] :=
  (isRank_getElem (List.pairwise_insertionSort (· ≤ ·) l).sortedLE hk).perm
    (List.perm_insertionSort (· ≤ ·) l)

end OrderStatistic
