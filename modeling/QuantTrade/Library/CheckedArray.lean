import Mathlib.Data.Int.Range
import Mathlib.Data.Option.Basic
import Mathlib.Tactic.Common

/-!
# Arrays with checked accesses

An array of a fixed number of cells, none of which is written at first.  An access at an index
outside of the array fails, and so does the read of a cell that was not written.  A loop over a
range of indices succeeds when every round does (`exists_foldlM_range`), and fails when a round does
in every state (`foldlM_eq_none`).
-/

/-- The cells of the array; `none` is a cell that was not written. -/
structure CheckedArray (α : Type*) (cap : ℕ) where
  cells : Vector (Option α) cap

namespace CheckedArray

variable {α : Type*} {cap : ℕ}

/-- Nothing is written. -/
def empty : CheckedArray α cap where
  cells := Vector.replicate cap none

/-- The value of a cell. -/
def read? (a : CheckedArray α cap) (i : ℤ) : Option α :=
  if 0 ≤ i then a.cells[i.toNat]?.join else none

/-- The cell gets the value. -/
def write? (a : CheckedArray α cap) (i : ℤ) (x : α) : Option (CheckedArray α cap) :=
  if h : 0 ≤ i ∧ i.toNat < cap then some { cells := a.cells.set i.toNat (some x) h.2 } else none

/-- The cells from 0 up to the index are written. -/
def WrittenTo (a : CheckedArray α cap) (n : ℤ) : Prop :=
  ∀ i, 0 ≤ i → i < n → (a.read? i).isSome

variable {a b : CheckedArray α cap} {i j n : ℤ} {x : α}

/-- A read outside of the array fails. -/
lemma read?_eq_none (h : (cap : ℤ) ≤ i) : a.read? i = none := by
  unfold read?
  split_ifs
  · rw [Vector.getElem?_eq_none (by omega), Option.join_none]
  · rfl

/-- What is read after a write. -/
lemma read?_of_write? (h : a.write? i x = some b) (j : ℤ) :
    b.read? j = if j = i then some x else a.read? j := by
  unfold write? at h
  split_ifs at h with hi
  obtain rfl := Option.some_inj.mp h
  unfold read?
  by_cases hj : 0 ≤ j
  · rw [if_pos hj, if_pos hj, Vector.getElem?_set]
    by_cases hij : j = i
    · rw [if_pos (by rw [hij]), if_pos hij, Option.join_some]
    · rw [if_neg (by omega), if_neg hij]
  · rw [if_neg hj, if_neg hj, if_neg]
    rintro rfl
    exact hj hi.1

/-- A write inside of the array succeeds, and the value is there. -/
lemma exists_write? (hi : 0 ≤ i) (hcap : i < cap) (x : α) :
    ∃ b, a.write? i x = some b ∧ b.read? i = some x := by
  have hwrite : a.write? i x = some { cells := a.cells.set i.toNat (some x) (by omega) } :=
    dif_pos ⟨hi, by omega⟩
  refine ⟨_, hwrite, ?_⟩
  rw [read?_of_write? hwrite, if_pos rfl]

lemma writtenTo_zero : a.WrittenTo 0 :=
  fun _ hi hlt => absurd hlt (not_lt.mpr hi)

lemma WrittenTo.mono {m : ℤ} (h : a.WrittenTo n) (hle : m ≤ n) : a.WrittenTo m :=
  fun i hi hlt => h i hi (hlt.trans_le hle)

/-- A write takes no value away. -/
lemma WrittenTo.write? (h : a.WrittenTo n) (hw : a.write? i x = some b) : b.WrittenTo n := by
  intro j hj hlt
  rw [read?_of_write? hw]
  split_ifs
  · rfl
  · exact h j hj hlt

/-- The next cell is written. -/
lemma WrittenTo.write?_succ (h : a.WrittenTo n) (hw : a.write? n x = some b) :
    b.WrittenTo (n + 1) := by
  intro j hj hlt
  rw [read?_of_write? hw]
  split_ifs with heq
  · rfl
  · exact h j hj (by omega)

lemma WrittenTo.exists_read? (h : a.WrittenTo n) (hi : 0 ≤ i) (hlt : i < n) :
    ∃ x, a.read? i = some x :=
  Option.isSome_iff_exists.mp (h i hi hlt)

/-! ## Loops -/

variable {σ : Type*} {f : σ → ℤ → Option σ}

lemma range_of_le {m n : ℤ} (h : n ≤ m) : Int.range m n = [] := by
  rw [Int.range, Int.toNat_of_nonpos (by omega), List.range_zero, List.map_nil]

lemma range_of_lt {m n : ℤ} (h : m < n) : Int.range m n = m :: Int.range (m + 1) n := by
  obtain ⟨k, hk⟩ := Int.eq_ofNat_of_zero_le (show 0 ≤ n - (m + 1) by omega)
  have hsucc : n - m = ((k + 1 : ℕ) : ℤ) := by omega
  rw [Int.range, Int.range, hk, hsucc, Int.toNat_natCast, Int.toNat_natCast,
    List.range_succ_eq_map, List.map_cons, List.map_map]
  congr 1
  · exact Int.add_zero m
  · refine List.map_congr_left fun r _ => ?_
    simp only [Function.comp_apply]
    omega

/-- **Loop rule.**  A loop over a range of indices in which every round succeeds and carries the
invariant on to the next index. -/
theorem exists_foldlM_range {I : ℤ → σ → Prop} {m n : ℤ} (hmn : m ≤ n)
    (hround : ∀ i s, m ≤ i → i < n → I i s → ∃ s', f s i = some s' ∧ I (i + 1) s') {s : σ}
    (hs : I m s) : ∃ s', (Int.range m n).foldlM f s = some s' ∧ I n s' := by
  obtain ⟨k, hk⟩ := Int.eq_ofNat_of_zero_le (show 0 ≤ n - m by omega)
  induction k generalizing m s with
  | zero =>
    obtain rfl : m = n := by omega
    rw [range_of_le le_rfl]
    exact ⟨s, rfl, hs⟩
  | succ k ih =>
    obtain ⟨s', hfirst, hs'⟩ := hround m s le_rfl (by omega) hs
    obtain ⟨s'', hrest, hs''⟩ := ih (by omega)
      (fun i t hi hlt => hround i t (by omega) hlt) hs' (by omega)
    refine ⟨s'', ?_, hs''⟩
    rw [range_of_lt (by omega), List.foldlM_cons, hfirst]
    exact hrest

/-- A loop whose rounds succeed in every state. -/
lemma exists_foldlM {l : List ℤ} (hround : ∀ i ∈ l, ∀ s, ∃ s', f s i = some s') (s : σ) :
    ∃ s', l.foldlM f s = some s' := by
  induction l generalizing s with
  | nil => exact ⟨s, rfl⟩
  | cons i l ih =>
    obtain ⟨t, hfirst⟩ := hround i List.mem_cons_self s
    obtain ⟨s', hrest⟩ := ih (fun j hj => hround j (List.mem_cons_of_mem i hj)) t
    exact ⟨s', by rw [List.foldlM_cons, hfirst]; exact hrest⟩

/-- What every round keeps holds at the end of a loop that succeeds. -/
lemma invariant_foldlM {I : σ → Prop} (hround : ∀ i s s', f s i = some s' → I s → I s') {l : List ℤ}
    {s s' : σ} (h : l.foldlM f s = some s') (hs : I s) : I s' := by
  induction l generalizing s with
  | nil =>
    obtain rfl := Option.some_inj.mp h
    exact hs
  | cons i l ih =>
    rw [List.foldlM_cons] at h
    obtain ⟨t, hfirst, hrest⟩ := Option.bind_eq_some_iff.mp h
    exact ih hrest (hround i s t hfirst hs)

/-- A loop with a round that fails in every state. -/
lemma foldlM_eq_none {l : List ℤ} (hmem : i ∈ l) (hfail : ∀ s, f s i = none) (s : σ) :
    l.foldlM f s = none := by
  induction l generalizing s with
  | nil => exact absurd hmem List.not_mem_nil
  | cons j l ih =>
    rw [List.foldlM_cons]
    rcases List.mem_cons.mp hmem with rfl | hrest
    · rw [hfail s]
      rfl
    · cases f s j with
      | none => rfl
      | some s' => exact ih hrest s'

end CheckedArray
