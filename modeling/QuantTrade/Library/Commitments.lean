import Mathlib.Algebra.Order.BigOperators.Group.List
import Mathlib.Algebra.Order.Ring.Int
import Mathlib.Tactic.Linarith
import Mathlib.Tactic.Ring

/-!
# Amounts that are still open

A list of commitments, each about an item and with an amount that may still be drawn.  Commitments
are added, an amount is drawn from one of them (`draw`), or what is left of one is given up
(`void`).  `openAmount` is what may be drawn in all from the commitments about some items, and it is
at most the number of these commitments that are open, times what one of them can hold
(`openAmount_le`).
-/

/-- What a commitment is about, and the amount that is left of it. -/
structure Commitment (α : Type*) where
  item : α
  amount : ℤ

namespace Commitments

variable {α : Type*}

/-- An amount is drawn from the `i`-th commitment. -/
def draw (l : List (Commitment α)) (i : ℕ) (amount : ℤ) : List (Commitment α) :=
  l.modify i fun c => { c with amount := c.amount - amount }

/-- Nothing more is drawn from the `i`-th commitment. -/
def void (l : List (Commitment α)) (i : ℕ) : List (Commitment α) :=
  l.modify i fun c => { c with amount := 0 }

/-- Every commitment has an amount from 0 to the cap. -/
def Capped (cap : ℤ) (l : List (Commitment α)) : Prop :=
  ∀ c ∈ l, 0 ≤ c.amount ∧ c.amount ≤ cap

section

variable (p : α → Bool)

/-- What may be drawn from the commitments about the items of a kind. -/
def openAmount (l : List (Commitment α)) : ℤ :=
  (l.map fun c => if p c.item then c.amount else 0).sum

/-- The number of the commitments about the items of a kind from which something may be drawn. -/
def openCount (l : List (Commitment α)) : ℕ :=
  l.countP fun c => p c.item && decide (0 < c.amount)

end

variable {p : α → Bool} {cap : ℤ} {l : List (Commitment α)} {c : Commitment α} {i : ℕ}

@[simp] lemma openAmount_nil : openAmount p ([] : List (Commitment α)) = 0 := rfl

@[simp] lemma openAmount_cons :
    openAmount p (c :: l) = (if p c.item then c.amount else 0) + openAmount p l := by
  simp [openAmount]

@[simp] lemma openAmount_append (l' : List (Commitment α)) :
    openAmount p (l ++ l') = openAmount p l + openAmount p l' := by
  simp [openAmount]

lemma openCount_cons :
    openCount p (c :: l) = openCount p l + if p c.item = true ∧ 0 < c.amount then 1 else 0 := by
  simp [openCount, List.countP_cons]

/-- What is drawn from a commitment is open no longer. -/
lemma openAmount_draw (hc : l[i]? = some c) (amount : ℤ) :
    openAmount p (draw l i amount) = openAmount p l - if p c.item then amount else 0 := by
  induction l generalizing i with
  | nil => cases hc
  | cons first l ih =>
    cases i with
    | zero =>
      obtain rfl : first = c := by simpa using hc
      rw [draw, List.modify_zero_cons, openAmount_cons, openAmount_cons]
      split_ifs <;> ring
    | succ i =>
      have hrest := ih (List.getElem?_cons_succ ▸ hc)
      rw [draw] at hrest ⊢
      rw [List.modify_succ_cons, openAmount_cons, openAmount_cons, hrest]
      ring

/-- Giving up what is left of a commitment opens nothing. -/
lemma openAmount_void_le (h : Capped cap l) (i : ℕ) : openAmount p (void l i) ≤ openAmount p l := by
  induction l generalizing i with
  | nil => simp [void]
  | cons first l ih =>
    cases i with
    | zero =>
      have hfirst := (h first List.mem_cons_self).1
      rw [void, List.modify_zero_cons, openAmount_cons, openAmount_cons]
      split_ifs <;> simp [hfirst]
    | succ i =>
      have hrest := ih (fun c hc => h c (List.mem_cons_of_mem first hc)) i
      rw [void] at hrest ⊢
      rw [List.modify_succ_cons, openAmount_cons, openAmount_cons]
      exact Int.add_le_add_left hrest _

/-- A part of the commitments opens no more than all of them. -/
lemma openAmount_le_of_sublist {l' : List (Commitment α)} (hsub : l'.Sublist l) (h : Capped cap l) :
    openAmount p l' ≤ openAmount p l := by
  induction hsub with
  | slnil => exact le_rfl
  | cons c hsub ih =>
    have hrest := ih fun c' hc' => h c' (List.mem_cons_of_mem c hc')
    have hnonneg := (h c List.mem_cons_self).1
    rw [openAmount_cons]
    split_ifs <;> omega
  | cons_cons c hsub ih =>
    have hrest := ih fun c' hc' => h c' (List.mem_cons_of_mem c hc')
    rw [openAmount_cons, openAmount_cons]
    exact Int.add_le_add_left hrest _

lemma Capped.openAmount_nonneg (h : Capped cap l) : 0 ≤ openAmount p l := by
  apply List.sum_nonneg
  intro x hx
  obtain ⟨c, hc, rfl⟩ := List.mem_map.mp hx
  have hnonneg := (h c hc).1
  split_ifs <;> omega

lemma Capped.append (h : Capped cap l) {l' : List (Commitment α)} (h' : Capped cap l') :
    Capped cap (l ++ l') := by
  intro c hc
  rcases List.mem_append.mp hc with hold | hnew
  · exact h c hold
  · exact h' c hnew

/-- A commitment that is changed stays below the cap when its new amount does. -/
lemma Capped.modify (h : Capped cap l) {f : Commitment α → Commitment α}
    (hf : ∀ c, l[i]? = some c → 0 ≤ (f c).amount ∧ (f c).amount ≤ cap) :
    Capped cap (l.modify i f) := by
  intro c hc
  obtain ⟨j, hj⟩ := List.mem_iff_getElem?.mp hc
  by_cases hij : i = j
  · rw [hij, List.getElem?_modify_eq, Option.map_eq_map, Option.map_eq_some_iff] at hj
    obtain ⟨c', hc', rfl⟩ := hj
    exact hf c' (hij ▸ hc')
  · rw [List.getElem?_modify_ne _ _ hij] at hj
    exact h c (List.mem_of_getElem? hj)

/-- No more is drawn from a commitment than is left of it. -/
lemma Capped.draw (h : Capped cap l) (hc : l[i]? = some c) {amount : ℤ} (hpos : 0 ≤ amount)
    (hle : amount ≤ c.amount) : Capped cap (draw l i amount) := by
  apply h.modify
  intro c' hc'
  obtain rfl : c = c' := Option.some_inj.mp (hc.symm.trans hc')
  have hcap := h c (List.mem_of_getElem? hc)
  dsimp only
  omega

lemma Capped.void (h : Capped cap l) (hcap : 0 ≤ cap) (i : ℕ) : Capped cap (void l i) :=
  h.modify fun _ _ => ⟨le_rfl, hcap⟩

/-- **Open amounts.**  What may be drawn is at most the number of the open commitments times what
one of them can hold. -/
theorem openAmount_le (h : Capped cap l) : openAmount p l ≤ openCount p l * cap := by
  induction l with
  | nil => simp [openCount]
  | cons c l ih =>
    have hrest := ih fun c' hc' => h c' (List.mem_cons_of_mem c hc')
    obtain ⟨hnonneg, hcap⟩ := h c List.mem_cons_self
    rw [openAmount_cons, openCount_cons]
    by_cases hp : p c.item = true
    · by_cases hpos : 0 < c.amount
      · rw [if_pos hp, if_pos ⟨hp, hpos⟩]
        push_cast
        linarith
      · rw [if_pos hp, if_neg fun hboth => hpos hboth.2]
        push_cast
        linarith
    · rw [if_neg hp, if_neg fun hboth => hp hboth.1]
      push_cast
      linarith

end Commitments
