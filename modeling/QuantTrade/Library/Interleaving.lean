import Mathlib.Algebra.BigOperators.Group.Finset.Basic
import Mathlib.Algebra.Order.Monoid.Defs
import Mathlib.Logic.Function.Basic
import QuantTrade.Library.Transition

/-!
# Threads on a shared state

Any number of threads run the same code on a shared state.  `act t s l a` is one atomic step of the
thread `t` that is at the local state `l`, with the outcome `a` of what the code does not determine;
it gives the new shared state and the new local state.  A run is a list of such steps in any order,
so a sequentially consistent interleaving.

An invariant is given by a property `I` of the shared state and an assertion `L` about each thread.
It is proved in two parts (`Holds.step`): a thread establishes its own next assertion, and it does
not interfere with the assertions of the others.  A quantity that is spread over the shared state
and the threads is `total`; what one step does to it is what the thread does to its share
(`total_step`).
-/

namespace Interleaving

variable {σ ι κ α : Type*}

/-- The shared state, and where each thread is. -/
structure Config (σ ι κ : Type*) where
  shared : σ
  locals : ι → κ

variable [DecidableEq ι] (act : ι → σ → κ → α → σ × κ)

/-- One step of the thread `p.1`. -/
def step (c : Config σ ι κ) (p : ι × α) : Config σ ι κ where
  shared := (act p.1 c.shared (c.locals p.1) p.2).1
  locals := Function.update c.locals p.1 (act p.1 c.shared (c.locals p.1) p.2).2

@[simp] lemma shared_step (c : Config σ ι κ) (t : ι) (a : α) :
    (step act c (t, a)).shared = (act t c.shared (c.locals t) a).1 := rfl

@[simp] lemma locals_step_self (c : Config σ ι κ) (t : ι) (a : α) :
    (step act c (t, a)).locals t = (act t c.shared (c.locals t) a).2 :=
  Function.update_self ..

lemma locals_step_of_ne (c : Config σ ι κ) {t t' : ι} (h : t' ≠ t) (a : α) :
    (step act c (t, a)).locals t' = c.locals t' :=
  Function.update_of_ne h ..

/-- A condition on the steps that looks at the shared state and at the thread that takes the
step. -/
def Allows (C : ι → σ → κ → α → Prop) (c : Config σ ι κ) (p : ι × α) : Prop :=
  C p.1 c.shared (c.locals p.1) p.2

instance {C : ι → σ → κ → α → Prop} [∀ t s l a, Decidable (C t s l a)] (c : Config σ ι κ)
    (p : ι × α) : Decidable (Allows C c p) :=
  inferInstanceAs (Decidable (C ..))

/-! ## Assertions about threads -/

/-- The property of the shared state and the assertion about every thread hold. -/
structure Holds (I : σ → Prop) (L : ι → σ → κ → Prop) (c : Config σ ι κ) : Prop where
  shared : I c.shared
  locals : ∀ t, L t c.shared (c.locals t)

/-- A thread establishes its own assertion, and it does not interfere with those of the others. -/
structure Inductive (C : ι → σ → κ → α → Prop) (I : σ → Prop) (L : ι → σ → κ → Prop) : Prop where
  shared : ∀ t s l a, C t s l a → I s → L t s l → I (act t s l a).1
  own : ∀ t s l a, C t s l a → I s → L t s l → L t (act t s l a).1 (act t s l a).2
  others : ∀ t s l a, C t s l a → I s → L t s l →
    ∀ t' l', t' ≠ t → L t' s l' → L t' (act t s l a).1 l'

variable {act}

/-- One step keeps an inductive invariant. -/
theorem Holds.step {C : ι → σ → κ → α → Prop} {I : σ → Prop} {L : ι → σ → κ → Prop}
    (hind : Inductive act C I L) {c : Config σ ι κ} {p : ι × α} (hC : Allows C c p)
    (h : Holds I L c) : Holds I L (step act c p) := by
  obtain ⟨t, a⟩ := p
  constructor
  · exact hind.shared t _ _ a hC h.shared (h.locals t)
  · intro t'
    by_cases ht : t' = t
    · subst ht
      rw [locals_step_self]
      exact hind.own t' _ _ a hC h.shared (h.locals t')
    · rw [locals_step_of_ne act c ht]
      exact hind.others t _ _ a hC h.shared (h.locals t) t' _ ht (h.locals t')

/-- **Invariant rule.**  An inductive invariant holds at the end of every interleaving. -/
theorem Holds.run {C : ι → σ → κ → α → Prop} {I : σ → Prop} {L : ι → σ → κ → Prop}
    (hind : Inductive act C I L) {c : Config σ ι κ} {as : List (ι × α)}
    (has : Transition.Admissible (Interleaving.step act) (Allows C) c as) (h : Holds I L c) :
    Holds I L (Transition.run (Interleaving.step act) c as) :=
  Transition.invariant_run (fun _ _ hC h => h.step hind hC) has h

/-! ## Quantities spread over the threads -/

section Total

variable {M : Type*} [AddCommMonoid M] [Fintype ι]

/-- The sum of the shares of the shared state and of all threads. -/
def total (m : σ → M) (f : κ → M) (c : Config σ ι κ) : M :=
  m c.shared + ∑ t, f (c.locals t)

variable (act) in
/-- A step changes the share of the shared state and of the thread that takes it. -/
lemma total_step (m : σ → M) (f : κ → M) (c : Config σ ι κ) (t : ι) (a : α) :
    ∃ rest, total m f c = (m c.shared + f (c.locals t)) + rest ∧
      total m f (step act c (t, a)) =
        (m (act t c.shared (c.locals t) a).1 + f (act t c.shared (c.locals t) a).2) + rest := by
  refine ⟨∑ t' ∈ Finset.univ.erase t, f (c.locals t'), ?_, ?_⟩
  · rw [total, ← Finset.add_sum_erase _ _ (Finset.mem_univ t), add_assoc]
  · rw [total, ← Finset.add_sum_erase _ _ (Finset.mem_univ t), locals_step_self, shared_step,
      add_assoc]
    congr 2
    apply Finset.sum_congr rfl
    intro t' ht'
    rw [locals_step_of_ne act c (Finset.ne_of_mem_erase ht')]

variable (act) in
/-- A step that only moves shares between the shared state and the thread keeps the total. -/
lemma total_step_eq {m : σ → M} {f : κ → M} {c : Config σ ι κ} {t : ι} {a : α}
    (h : m (act t c.shared (c.locals t) a).1 + f (act t c.shared (c.locals t) a).2 =
      m c.shared + f (c.locals t)) :
    total m f (step act c (t, a)) = total m f c := by
  obtain ⟨rest, hbefore, hafter⟩ := total_step act m f c t a
  rw [hbefore, hafter, h]

/-- A step that does not raise the shares it touches does not raise the total. -/
lemma total_step_le [PartialOrder M] [IsOrderedAddMonoid M] {m : σ → M} {f : κ → M}
    {c : Config σ ι κ} {t : ι} {a : α}
    (h : m (act t c.shared (c.locals t) a).1 + f (act t c.shared (c.locals t) a).2 ≤
      m c.shared + f (c.locals t)) :
    total m f (step act c (t, a)) ≤ total m f c := by
  obtain ⟨rest, hbefore, hafter⟩ := total_step act m f c t a
  rw [hbefore, hafter]
  exact add_le_add_left h rest

end Total

end Interleaving
