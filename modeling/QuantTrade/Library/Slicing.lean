import Mathlib.Algebra.BigOperators.Group.List.Basic
import Mathlib.Algebra.Order.Group.Unbundled.Int
import Mathlib.Algebra.Ring.Int.Defs
import Mathlib.Data.Int.Order.Basic
import QuantTrade.Library.Transition

/-!
# Handing out a quantity in slices

A quantity is handed out slice by slice.  A slice takes the target that is set for it, but leaves a
unit for each slice behind it, and takes a unit itself in any case; the last slice takes what is
left.  Whatever the targets are, this hands out the quantity exactly, as long as there is a unit for
each slice before the last one (`Funded`).  A system that does no more than this inherits the law
(`Implements.exact_run`), and so it does its converse (`le_of_sum_le`).
-/

namespace Slicing

/-- How far the quantity is handed out: the index of the next slice, the sum and the parts that were
not empty. -/
structure Progress where
  total : ℤ
  slices : ℤ
  index : ℤ
  sent : ℤ
  parts : List ℤ

/-- Nothing is handed out. -/
def init (total slices : ℤ) : Progress where
  total := total
  slices := slices
  index := 0
  sent := 0
  parts := []

namespace Progress

/-- What the next slice takes. -/
def part (p : Progress) (target : ℤ) : ℤ :=
  if p.index = p.slices - 1 then p.total - p.sent
  else max 1 (min target (p.total - p.sent - (p.slices - 1 - p.index)))

/-- The next slice, as long as there is one. -/
def slice (p : Progress) (target : ℤ) : Progress :=
  if p.slices ≤ p.index then p
  else if 0 < p.part target then
    { p with
      index := p.index + 1
      sent := p.sent + p.part target
      parts := p.parts ++ [p.part target] }
  else { p with index := p.index + 1 }

/-- The parts add up to the quantity in the end, and never to more. -/
structure Exact (p : Progress) : Prop where
  one_le : ∀ q ∈ p.parts, 1 ≤ q
  sum_le : p.parts.sum ≤ p.total
  length_le : (p.parts.length : ℤ) ≤ p.slices
  done : p.slices ≤ p.index → p.parts.sum = p.total ∧ p.total - p.sent = 0

/-- There is a unit left for each slice before the last one. -/
structure Funded (p : Progress) : Prop where
  one_le : ∀ q ∈ p.parts, 1 ≤ q
  sum_eq : p.parts.sum = p.sent
  length_le : (p.parts.length : ℤ) ≤ p.index
  index_le : p.index ≤ p.slices
  reserve : p.index < p.slices → p.sent + (p.slices - 1 - p.index) ≤ p.total
  full : p.index = p.slices → p.sent = p.total

/-- Every part so far was a unit, since there are too few of them. -/
structure Scarce (p : Progress) : Prop where
  short : p.total < p.slices - 1
  sent_eq : p.sent = p.index
  sum_eq : p.parts.sum = p.sent

variable {p : Progress}

lemma funded_init {total slices : ℤ} (hslices : 0 < slices) (htotal : slices - 1 ≤ total) :
    (init total slices).Funded where
  one_le := by simp [init]
  sum_eq := rfl
  length_le := le_rfl
  index_le := hslices.le
  reserve := by simp only [init]; omega
  full := by simp only [init]; omega

lemma Funded.exact (h : p.Funded) : p.Exact where
  one_le := h.one_le
  sum_le := by
    have hsum := h.sum_eq
    have hreserve := h.reserve
    have hfull := h.full
    have hindex := h.index_le
    omega
  length_le := h.length_le.trans h.index_le
  done := by
    intro hdone
    have hsum := h.sum_eq
    have hfull := h.full (le_antisymm h.index_le hdone)
    omega

/-- A slice that takes something is a part more. -/
lemma slice_of_pos {target : ℤ} (hindex : p.index < p.slices) (hpos : 0 < p.part target) :
    p.slice target =
      { p with
        index := p.index + 1
        sent := p.sent + p.part target
        parts := p.parts ++ [p.part target] } := by
  rw [slice, if_neg (by omega), if_pos hpos]

/-- A slice that takes nothing. -/
lemma slice_of_not_pos {target : ℤ} (hindex : p.index < p.slices) (hpos : ¬0 < p.part target) :
    p.slice target = { p with index := p.index + 1 } := by
  rw [slice, if_neg (by omega), if_neg hpos]

lemma part_last (target : ℤ) (hlast : p.index = p.slices - 1) : p.part target = p.total - p.sent :=
  if_pos hlast

/-- Before the last slice a unit is taken in any case. -/
lemma one_le_part (target : ℤ) (hlast : p.index ≠ p.slices - 1) : 1 ≤ p.part target := by
  rw [part, if_neg hlast]
  exact le_max_left ..

/-- Where the reserve is there, it is not touched. -/
lemma part_le (target : ℤ) (hlast : p.index ≠ p.slices - 1)
    (hreserve : p.sent + (p.slices - 1 - p.index) ≤ p.total) :
    p.part target + (p.sent + (p.slices - 1 - (p.index + 1))) ≤ p.total := by
  rw [part, if_neg hlast]
  omega

/-- Where the reserve is missing, no more than a unit is taken. -/
lemma part_of_short (target : ℤ) (hlast : p.index ≠ p.slices - 1)
    (hshort : p.total - p.sent - (p.slices - 1 - p.index) ≤ 1) : p.part target = 1 := by
  rw [part, if_neg hlast]
  omega

/-- A part that leaves enough behind. -/
lemma Funded.append (h : p.Funded) {q : ℤ} (hindex : p.index < p.slices) (hq : 1 ≤ q)
    (hreserve : p.index + 1 < p.slices → q + (p.sent + (p.slices - 1 - (p.index + 1))) ≤ p.total)
    (hfull : p.index + 1 = p.slices → p.sent + q = p.total) :
    Funded { p with index := p.index + 1, sent := p.sent + q, parts := p.parts ++ [q] } where
  one_le := by
    intro q' hq'
    rcases List.mem_append.mp hq' with hold | hnew
    · exact h.one_le q' hold
    · rwa [List.mem_singleton.mp hnew]
  sum_eq := by rw [List.sum_append, List.sum_singleton, h.sum_eq]
  length_le := by
    have hlength := h.length_le
    rw [List.length_append, List.length_singleton]
    dsimp only
    omega
  index_le := hindex
  reserve := by
    dsimp only
    omega
  full := hfull

/-- A slice leaves a unit for each of the slices behind it. -/
lemma Funded.slice (h : p.Funded) (target : ℤ) : (p.slice target).Funded := by
  rcases lt_or_ge p.index p.slices with hindex | hdone
  · have hsent := h.reserve hindex
    have hlength := h.length_le
    by_cases hpos : 0 < p.part target
    · rw [slice_of_pos hindex hpos]
      by_cases hlast : p.index = p.slices - 1
      · have hpart := part_last target hlast
        exact h.append hindex hpos (by omega) (by omega)
      · have hpart := part_le target hlast hsent
        exact h.append hindex hpos (fun _ => hpart) (by omega)
    · -- only the last slice can be empty
      have hlast : p.index = p.slices - 1 := by
        by_contra hlast
        exact hpos (one_le_part target hlast)
      have hpart := part_last target hlast
      rw [slice_of_not_pos hindex hpos]
      refine ⟨h.one_le, h.sum_eq, ?_, ?_, ?_, ?_⟩
      all_goals dsimp only; omega
  · rw [Progress.slice, if_pos hdone]
    exact h

/-- With too few units, a slice takes one even so. -/
lemma Scarce.slice (h : p.Scarce) (hindex : p.index ≤ p.total) (target : ℤ) :
    (p.slice target).Scarce ∧ (p.slice target).index = p.index + 1 ∧
      (p.slice target).total = p.total := by
  have hshort := h.short
  have hsent := h.sent_eq
  have hpart := part_of_short target (show p.index ≠ p.slices - 1 by omega) (by omega)
  rw [slice_of_pos (by omega) (by omega), hpart]
  refine ⟨⟨hshort, ?_, ?_⟩, rfl, rfl⟩
  · exact congrArg (· + 1) hsent
  · rw [List.sum_append, List.sum_singleton, h.sum_eq]

end Progress

/-! ## Systems that hand out a quantity -/

section Systems

variable {σ α : Type*} {step : σ → α → σ} {progress : σ → Progress}

/-- A step of the system for an action that is allowed is a slice or leaves the progress as it is.
-/
def Implements (step : σ → α → σ) (progress : σ → Progress) (C : α → Prop) : Prop :=
  ∀ s a, C a → progress (step s a) = progress s ∨
    ∃ target, progress (step s a) = (progress s).slice target

/-- **The law of slicing.**  With a unit for each slice before the last one, every run of a system
that does no more than hand out slices is exact. -/
theorem Implements.exact_run {C : α → Prop} (h : Implements step progress C) {s : σ}
    (hs : (progress s).Funded) {as : List α} (has : ∀ a ∈ as, C a) :
    (progress (Transition.run step s as)).Exact := by
  have hstep : ∀ t a, C a → (progress t).Funded → (progress (step t a)).Funded := by
    intro t a ha ht
    rcases h t a ha with hsame | ⟨target, hslice⟩
    · rwa [hsame]
    · rw [hslice]
      exact ht.slice target
  have hall : Transition.Admissible step (fun _ a => C a) s as :=
    Transition.admissible_of_forall step (fun a ha _ => has a ha) s
  exact (Transition.invariant_run (P := fun t => (progress t).Funded) hstep hall hs).exact

section Converse

variable {P : σ → Prop} {fire : α} (hP : ∀ s, P s → P (step s fire))
  (hfire : ∀ s, P s → ∃ target, progress (step s fire) = (progress s).slice target)

include hP hfire

/-- With too few units, the slices take one each, until more is handed out than there is. -/
lemma scarce_run {s : σ} (hs : P s) (hscarce : (progress s).Scarce)
    (hindex : (progress s).index = 0) {n : ℕ} (hn : (n : ℤ) ≤ (progress s).total + 1) :
    let t := Transition.run step s (List.replicate n fire)
    P t ∧ (progress t).Scarce ∧ (progress t).index = n ∧
      (progress t).total = (progress s).total := by
  induction n with
  | zero => exact ⟨hs, hscarce, hindex, rfl⟩
  | succ n ih =>
    obtain ⟨ht, hbefore, hcount, htotal⟩ := ih (by omega)
    obtain ⟨target, hslice⟩ := hfire _ ht
    obtain ⟨hafter, hcount', htotal'⟩ := hbefore.slice (by omega) target
    rw [List.replicate_succ', Transition.run_concat]
    dsimp only
    rw [hslice]
    exact ⟨hP _ ht, hafter, by omega, htotal'.trans htotal⟩

/-- The law of slicing needs its units: when slices can be handed out at any time and no run that
does so exceeds the quantity, there is one for each slice before the last one. -/
theorem le_of_sum_le {s : σ} (hs : P s) {total slices : ℤ} (hinit : progress s = init total slices)
    (htotal : 0 ≤ total)
    (hsum : ∀ n, let p := progress (Transition.run step s (List.replicate n fire))
      p.parts.sum ≤ p.total) :
    slices - 1 ≤ total := by
  by_contra hshort
  have hscarce : (progress s).Scarce := by
    rw [hinit]
    exact ⟨not_le.mp hshort, rfl, rfl⟩
  have htotal' : (progress s).total = total := by rw [hinit]; rfl
  obtain ⟨-, hend, hcount, hsame⟩ := scarce_run hP hfire hs hscarce (by rw [hinit]; rfl)
    (n := total.toNat + 1) (by omega)
  have hle := hsum (total.toNat + 1)
  dsimp only at hle
  rw [hend.sum_eq, hend.sent_eq, hcount, hsame, htotal'] at hle
  omega

end Converse

end Systems

end Slicing
