import Mathlib.Data.List.Induction
import Mathlib.Order.Bounds.Basic
import QuantTrade.Library.Transition

/-!
# Keeping pace with a schedule

The slices of a schedule begin one interval after the other.  A system that is called now and then
takes at most one slice a call, and none that has not begun (`Follows`).  So it can fall behind, and
catches up by one slice a call.  How far it is, is exactly the least, over all moments of the run,
of the slices begun at that moment and the calls since (`isLeast_index`): in particular it is never
ahead of the schedule, and it is behind by no more than the calls that were too few.
-/

namespace Pacing

/-- When the slices begin. -/
structure Schedule where
  start : ℕ
  interval : ℕ
  slices : ℕ

namespace Schedule

variable (c : Schedule)

/-- The slices that have begun at a time. -/
def begun (now : ℕ) : ℕ :=
  if now < c.start then 0
  else if c.interval = 0 then c.slices
  else min c.slices ((now - c.start) / c.interval + 1)

/-- The slices that have begun at the last of some times, none without a time. -/
def begunAt (times : List ℕ) : ℕ :=
  (times.getLast?.map c.begun).getD 0

variable {c}

/-- A slice has begun when there is one and its time has come. -/
lemma lt_begun_iff {i now : ℕ} :
    i < c.begun now ↔ i < c.slices ∧ c.start + i * c.interval ≤ now := by
  unfold begun
  split_ifs with hearly hzero
  · refine iff_of_false (Nat.not_lt_zero i) fun h => ?_
    exact absurd ((Nat.le_add_right _ _).trans h.2) (not_le.mpr hearly)
  · rw [hzero, Nat.mul_zero, Nat.add_zero]
    exact (and_iff_left (not_lt.mp hearly)).symm
  · have hpos : 0 < c.interval := Nat.pos_of_ne_zero hzero
    rw [lt_min_iff, Nat.lt_succ_iff, Nat.le_div_iff_mul_le hpos,
      Nat.le_sub_iff_add_le (not_lt.mp hearly), Nat.add_comm]

/-- The slices that have begun do not become fewer. -/
lemma begun_mono {now later : ℕ} (h : now ≤ later) : c.begun now ≤ c.begun later := by
  by_contra hless
  have hbegun := lt_begun_iff.mp (not_le.mp hless)
  exact lt_irrefl _ (lt_begun_iff.mpr ⟨hbegun.1, hbegun.2.trans h⟩)

@[simp] lemma begunAt_nil : c.begunAt [] = 0 := rfl

@[simp] lemma begunAt_concat (times : List ℕ) (now : ℕ) :
    c.begunAt (times ++ [now]) = c.begun now := by
  simp [begunAt]

/-- No slices end before the last time. -/
lemma begunAt_le {times : List ℕ} {now : ℕ} (h : ∀ time ∈ times, time ≤ now) :
    c.begunAt times ≤ c.begun now := by
  induction times using List.reverseRecOn with
  | nil => exact Nat.zero_le _
  | append_singleton times time _ =>
    rw [begunAt_concat]
    exact begun_mono (h time (List.mem_append_right times (List.mem_singleton_self time)))

end Schedule

variable {σ α : Type*}

/-- In the states of `P`, an action of `Q` takes the next slice if it is a call at a time when this
slice has begun, and nothing otherwise. -/
structure Follows (step : σ → α → σ) (index : σ → ℕ) (time : α → Option ℕ) (c : Schedule)
    (P : σ → Prop) (Q : α → Prop) : Prop where
  keep : ∀ s a, P s → Q a → P (step s a)
  call : ∀ s a now, P s → Q a → time a = some now →
    index (step s a) = if index s < c.begun now then index s + 1 else index s
  other : ∀ s a, P s → Q a → time a = none → index (step s a) = index s

/-- The moments of a run: how many slices have begun after its first part, and how many calls follow
this part. -/
def moments (time : α → Option ℕ) (c : Schedule) (as : List α) : Set ℕ :=
  {n | ∃ early late, early ++ late = as ∧
    n = c.begunAt (early.filterMap time) + (late.filterMap time).length}

variable {step : σ → α → σ} {index : σ → ℕ} {time : α → Option ℕ} {c : Schedule} {P : σ → Prop}
  {Q : α → Prop}

/-- The moments after one more action: those before, with this action behind them, and the one after
it. -/
lemma mem_moments_concat {as : List α} {a : α} {n : ℕ} :
    n ∈ moments time c (as ++ [a]) ↔
      n = c.begunAt ((as ++ [a]).filterMap time) ∨
        ∃ m ∈ moments time c as, n = m + (time a).toList.length := by
  constructor
  · rintro ⟨early, late, hsplit, rfl⟩
    rcases List.eq_nil_or_concat late with rfl | ⟨late, b, rfl⟩
    · rw [List.append_nil] at hsplit
      exact .inl (by rw [hsplit]; rfl)
    · rw [List.concat_eq_append, ← List.append_assoc] at hsplit
      obtain ⟨hrest, hlast⟩ := List.append_inj' hsplit rfl
      obtain rfl := List.singleton_inj.mp hlast
      refine .inr ⟨_, ⟨early, late, hrest, rfl⟩, ?_⟩
      rw [List.concat_eq_append, List.filterMap_append, List.length_append, add_assoc]
      cases hb : time b <;> simp [hb]
  · rintro (rfl | ⟨_, ⟨early, late, rfl, rfl⟩, rfl⟩)
    · exact ⟨as ++ [a], [], List.append_nil _, rfl⟩
    · refine ⟨early, late ++ [a], (List.append_assoc ..).symm, ?_⟩
      rw [List.filterMap_append, List.length_append, add_assoc]
      cases ha : time a <;> simp [ha]

/-- What is no call leaves the least over the moments as it is. -/
lemma isLeast_moments_of_none {as : List α} {a : α} {n : ℕ} (htime : time a = none)
    (h : IsLeast (moments time c as) n) : IsLeast (moments time c (as ++ [a])) n := by
  obtain ⟨hmem, hleast⟩ := h
  constructor
  · exact mem_moments_concat.mpr (.inr ⟨_, hmem, by simp [htime]⟩)
  · intro k hk
    rcases mem_moments_concat.mp hk with rfl | ⟨m, hm, rfl⟩
    · -- the moment after the action is the one before it
      refine hleast ⟨as, [], List.append_nil as, ?_⟩
      simp [htime]
    · exact (hleast hm).trans (Nat.le_add_right _ _)

/-- A call raises the least over the moments by one, up to the slices that have begun. -/
lemma isLeast_moments_of_some {as : List α} {a : α} {n now : ℕ} (htime : time a = some now)
    (hclock : ∀ earlier ∈ as.filterMap time, earlier ≤ now)
    (h : IsLeast (moments time c as) n) :
    IsLeast (moments time c (as ++ [a])) (if n < c.begun now then n + 1 else n) := by
  obtain ⟨hmem, hleast⟩ := h
  -- the moment before this call shows that the system is not ahead
  have hnever : n ≤ c.begun now := by
    refine le_trans (hleast ⟨as, [], List.append_nil as, rfl⟩) ?_
    exact Schedule.begunAt_le hclock
  have hlast : c.begunAt ((as ++ [a]).filterMap time) = c.begun now := by
    simp [List.filterMap_append, htime]
  have hone : (time a).toList.length = 1 := by simp [htime]
  by_cases hbehind : n < c.begun now
  · rw [if_pos hbehind]
    constructor
    · exact mem_moments_concat.mpr (.inr ⟨_, hmem, by rw [hone]⟩)
    · intro k hk
      rcases mem_moments_concat.mp hk with rfl | ⟨m, hm, rfl⟩
      · rw [hlast]
        exact hbehind
      · rw [hone]
        exact Nat.succ_le_succ (hleast hm)
  · rw [if_neg hbehind]
    have heq : n = c.begun now := le_antisymm hnever (not_lt.mp hbehind)
    constructor
    · exact mem_moments_concat.mpr (.inl (by rw [hlast, heq]))
    · intro k hk
      rcases mem_moments_concat.mp hk with rfl | ⟨m, hm, rfl⟩
      · rw [hlast, heq]
      · exact (hleast hm).trans (Nat.le_add_right _ _)

/-- **Pace.**  When the clock does not go back, the slices taken in a run are exactly the least,
over its moments, of the slices begun by then and the calls since. -/
theorem Follows.isLeast_index (h : Follows step index time c P Q) {s : σ} (hs : P s)
    (hindex : index s = 0) {as : List α} (has : ∀ a ∈ as, Q a)
    (hclock : (as.filterMap time).Pairwise (· ≤ ·)) :
    IsLeast (moments time c as) (index (Transition.run step s as)) ∧
      P (Transition.run step s as) := by
  induction as using List.reverseRecOn with
  | nil =>
    refine ⟨⟨⟨[], [], rfl, hindex⟩, fun n _ => ?_⟩, hs⟩
    exact hindex.le.trans (Nat.zero_le n)
  | append_singleton as a ih =>
    rw [List.filterMap_append, List.pairwise_append] at hclock
    obtain ⟨hleast, hP⟩ := ih (fun b hb => has b (List.mem_append_left _ hb)) hclock.1
    have hQ : Q a := has a (List.mem_append_right as (List.mem_singleton_self a))
    rw [Transition.run_concat]
    refine ⟨?_, h.keep _ a hP hQ⟩
    cases htime : time a with
    | none =>
      rw [h.other _ a hP hQ htime]
      exact isLeast_moments_of_none htime hleast
    | some now =>
      have hearlier : ∀ earlier ∈ as.filterMap time, earlier ≤ now := fun earlier hearlier =>
        hclock.2.2 earlier hearlier now (by simp [htime])
      rw [h.call _ a now hP hQ htime]
      exact isLeast_moments_of_some htime hearlier hleast

end Pacing
