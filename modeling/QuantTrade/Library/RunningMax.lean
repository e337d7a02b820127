import Mathlib.Data.List.Infix
import Mathlib.Order.Bounds.Basic
import Mathlib.Order.MinMax

/-!
# The greatest value so far

`peak f l` is the greatest value of `f` on the first parts of the list `l`, the empty one included.
A loop that follows the list can keep it up to date, because an element that is appended adds one
more part (`peak_concat`).
-/

namespace RunningMax

variable {α β : Type*} [LinearOrder β] (f : List α → β)

/-- The greatest value of `f` on the first parts of the list. -/
def peak (l : List α) : β :=
  (l.inits.map f).foldr max (f [])

/-- A maximum over a list is its start or one of the elements, and it is not less than any. -/
private lemma isGreatest_foldr_max (b : β) (bs : List β) :
    IsGreatest {x | x = b ∨ x ∈ bs} (bs.foldr max b) := by
  induction bs with
  | nil => simp
  | cons c bs ih =>
    rw [List.foldr_cons]
    constructor
    · rcases max_choice c (bs.foldr max b) with h | h
      · exact .inr (List.mem_cons.mpr (.inl h))
      · rcases ih.1 with hb | hmem
        · exact .inl (h.trans hb)
        · exact .inr (h.symm ▸ List.mem_cons_of_mem c hmem)
    · rintro x (rfl | hx)
      · exact le_max_of_le_right (ih.2 (.inl rfl))
      · rcases List.mem_cons.mp hx with rfl | hx
        · exact le_max_left ..
        · exact le_max_of_le_right (ih.2 (.inr hx))

/-- The peak is the greatest value. -/
theorem isGreatest_peak (l : List α) :
    IsGreatest {b | ∃ part, part <+: l ∧ b = f part} (peak f l) := by
  have h := isGreatest_foldr_max (f []) (l.inits.map f)
  constructor
  · rcases h.1 with hnil | hmem
    · exact ⟨[], List.nil_prefix, hnil⟩
    · obtain ⟨part, hpart, heq⟩ := List.mem_map.mp hmem
      exact ⟨part, (List.mem_inits _ _).mp hpart, heq.symm⟩
  · rintro _ ⟨part, hpart, rfl⟩
    exact h.2 (.inr (List.mem_map_of_mem ((List.mem_inits _ _).mpr hpart)))

/-- No part has a value above the peak. -/
lemma le_peak {part l : List α} (h : part <+: l) : f part ≤ peak f l :=
  (isGreatest_peak f l).2 ⟨part, h, rfl⟩

/-- The peak is reached. -/
lemma exists_eq_peak (l : List α) : ∃ part, part <+: l ∧ peak f l = f part :=
  (isGreatest_peak f l).1

@[simp] lemma peak_nil : peak f [] = f [] := by
  simp [peak]

/-- An element that is appended adds the value of the whole list. -/
theorem peak_concat (l : List α) (a : α) : peak f (l ++ [a]) = max (peak f l) (f (l ++ [a])) := by
  refine (isGreatest_peak f (l ++ [a])).unique ⟨?_, ?_⟩
  · rcases max_choice (peak f l) (f (l ++ [a])) with h | h
    · obtain ⟨part, hpart, heq⟩ := exists_eq_peak f l
      exact ⟨part, hpart.trans (List.prefix_append ..), h.trans heq⟩
    · exact ⟨l ++ [a], List.prefix_refl _, h⟩
  · rintro _ ⟨part, hpart, rfl⟩
    rcases List.prefix_concat_iff.mp hpart with rfl | hpart
    · exact le_max_right ..
    · exact le_max_of_le_left (le_peak f hpart)

/-! ## Loops that keep the best value -/

/-- A loop that keeps the greater of two values ends with the greatest one. -/
theorem isGreatest_foldl_max (b : β) (bs : List β) :
    IsGreatest {x | x ∈ b :: bs} (bs.foldl max b) := by
  induction bs generalizing b with
  | nil => simp
  | cons c bs ih =>
    obtain ⟨hmem, hbest⟩ := ih (max b c)
    rw [List.foldl_cons]
    constructor
    · rcases List.mem_cons.mp hmem with hmax | hrest
      · rcases max_choice b c with hb | hc
        · exact List.mem_cons.mpr (.inl (hmax.trans hb))
        · exact List.mem_cons_of_mem b (List.mem_cons.mpr (.inl (hmax.trans hc)))
      · exact List.mem_cons_of_mem b (List.mem_cons_of_mem c hrest)
    · intro x hx
      have hstart : max b c ≤ bs.foldl max (max b c) := hbest List.mem_cons_self
      rcases List.mem_cons.mp hx with rfl | hx
      · exact (le_max_left ..).trans hstart
      · rcases List.mem_cons.mp hx with rfl | hx
        · exact (le_max_right ..).trans hstart
        · exact hbest (List.mem_cons_of_mem _ hx)

/-- A loop that keeps the less of two values ends with the least one. -/
theorem isLeast_foldl_min (b : β) (bs : List β) : IsLeast {x | x ∈ b :: bs} (bs.foldl min b) :=
  @isGreatest_foldl_max βᵒᵈ _ b bs

end RunningMax
