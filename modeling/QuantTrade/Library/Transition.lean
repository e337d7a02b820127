import Mathlib.Algebra.Order.Group.Abs
import Mathlib.Algebra.Order.Monoid.Defs
import Mathlib.Algebra.BigOperators.Group.List.Basic
import Mathlib.Data.List.Basic
import Mathlib.Data.List.Induction

/-!
# Runs of a deterministic system

A system is a function `step : σ → α → σ`: in state `s` the action `a` leads to `step s a`.  `run`
performs a list of actions.  A run is `Admissible` for a condition `C` when every action is
performed in a state in which `C` holds of it; this is how an assumption about the environment of
the system is stated.  The induction over a run is done here once: an invariant that every
admissible step keeps holds at the end of every admissible run (`invariant_run`), and a preorder
between states that every step respects relates the two ends of a run (`relates_run`).  `sumAlong`
adds up a quantity over the steps of a run, and `observe` lists what is seen of them from outside.
-/

namespace Transition

variable {σ α : Type*} (step : σ → α → σ)

/-- The state after the actions `as`, performed one after the other from `s`. -/
def run (s : σ) (as : List α) : σ :=
  as.foldl step s

/-- Every action of the list is performed in a state in which the condition `C` allows it. -/
def Admissible (C : σ → α → Prop) : σ → List α → Prop
  | _, [] => True
  | s, a :: as => C s a ∧ Admissible C (step s a) as

@[simp] lemma run_nil (s : σ) : run step s [] = s := rfl

@[simp] lemma run_cons (s : σ) (a : α) (as : List α) :
    run step s (a :: as) = run step (step s a) as := rfl

/-- A run of two lists of actions is the second run from the end of the first. -/
lemma run_append (s : σ) (as bs : List α) :
    run step s (as ++ bs) = run step (run step s as) bs :=
  List.foldl_append

/-- The last action of a run is one step from the end of the others. -/
lemma run_concat (s : σ) (as : List α) (a : α) :
    run step s (as ++ [a]) = step (run step s as) a := by
  rw [run_append, run_cons, run_nil]

@[simp] lemma admissible_nil (C : σ → α → Prop) (s : σ) : Admissible step C s [] :=
  trivial

@[simp] lemma admissible_cons {C : σ → α → Prop} {s : σ} {a : α} {as : List α} :
    Admissible step C s (a :: as) ↔ C s a ∧ Admissible step C (step s a) as :=
  Iff.rfl

/-- A condition that looks at the action only is checked on the list of actions. -/
lemma admissible_of_forall {C : σ → α → Prop} {as : List α} (h : ∀ a ∈ as, ∀ s, C s a) (s : σ) :
    Admissible step C s as := by
  induction as generalizing s with
  | nil => trivial
  | cons a as ih =>
    exact ⟨h a List.mem_cons_self s, ih (fun b hb => h b (List.mem_cons_of_mem a hb)) _⟩

/-- Whether a run is admissible can be computed when the condition can. -/
instance decidableAdmissible {C : σ → α → Prop} [∀ s a, Decidable (C s a)] :
    (s : σ) → (as : List α) → Decidable (Admissible step C s as)
  | _, [] => .isTrue trivial
  | s, a :: as => @instDecidableAnd _ _ _ (decidableAdmissible (step s a) as)

variable {step}

/-- A run is admissible when every step of it is, after the steps before it. -/
lemma admissible_iff_forall_run {C : σ → α → Prop} {s : σ} {as : List α} :
    Admissible step C s as ↔ ∀ bs a, bs ++ [a] <+: as → C (run step s bs) a := by
  induction as generalizing s with
  | nil => simp
  | cons b as ih =>
    rw [admissible_cons, ih]
    constructor
    · rintro ⟨hfirst, hrest⟩ bs a hpre
      cases bs with
      | nil =>
        obtain ⟨rfl, -⟩ := List.cons_prefix_cons.mp hpre
        exact hfirst
      | cons c bs =>
        rw [List.cons_append, List.cons_prefix_cons] at hpre
        obtain ⟨rfl, htail⟩ := hpre
        exact hrest bs a htail
    · intro h
      refine ⟨h [] b (List.cons_prefix_cons.mpr ⟨rfl, List.nil_prefix⟩), ?_⟩
      intro bs a hpre
      exact h (b :: bs) a (List.cons_prefix_cons.mpr ⟨rfl, hpre⟩)

/-- Two conditions that agree in every state make the same runs admissible. -/
lemma admissible_congr {C D : σ → α → Prop} (h : ∀ s a, C s a ↔ D s a) {s : σ} {as : List α} :
    Admissible step C s as ↔ Admissible step D s as := by
  rw [admissible_iff_forall_run, admissible_iff_forall_run]
  simp only [h]

/-- Two conditions that agree in the states of an invariant, which the steps that meet them keep,
make the same runs admissible. -/
lemma admissible_congr_of_invariant {C D : σ → α → Prop} {P : σ → Prop}
    (hCD : ∀ s a, P s → (C s a ↔ D s a)) (hstep : ∀ s a, C s a → P s → P (step s a)) {s : σ}
    {as : List α} (hs : P s) : Admissible step C s as ↔ Admissible step D s as := by
  induction as generalizing s with
  | nil => exact Iff.rfl
  | cons a as ih =>
    rw [admissible_cons, admissible_cons, ← hCD s a hs]
    exact and_congr_right fun hC => ih (hstep s a hC hs)

/-- The first part of an admissible run is admissible. -/
lemma Admissible.of_append {C : σ → α → Prop} {s : σ} {as bs : List α}
    (h : Admissible step C s (as ++ bs)) : Admissible step C s as := by
  induction as generalizing s with
  | nil => trivial
  | cons a as ih => exact ⟨h.1, ih h.2⟩

/-- A run that is admissible for two conditions is admissible for both at once. -/
lemma Admissible.and {C D : σ → α → Prop} {s : σ} {as : List α} (hC : Admissible step C s as)
    (hD : Admissible step D s as) : Admissible step (fun s a => C s a ∧ D s a) s as := by
  induction as generalizing s with
  | nil => trivial
  | cons a as ih => exact ⟨⟨hC.1, hD.1⟩, ih hC.2 hD.2⟩

/-- **Invariant rule.**  A property that every admissible step keeps holds at the end of every
admissible run that starts with it. -/
theorem invariant_run {C : σ → α → Prop} {P : σ → Prop}
    (hstep : ∀ s a, C s a → P s → P (step s a)) {s : σ} {as : List α}
    (has : Admissible step C s as) (hs : P s) : P (run step s as) := by
  induction as generalizing s with
  | nil => exact hs
  | cons a as ih => exact ih has.2 (hstep s a has.1 hs)

/-- Every run is admissible when nothing is asked of its steps. -/
lemma admissible_true (s : σ) (as : List α) : Admissible step (fun _ _ => True) s as :=
  admissible_of_forall step (fun _ _ _ => trivial) s

/-- The invariant rule for a property that every step keeps. -/
theorem invariant_run_of_step {P : σ → Prop} (hstep : ∀ s a, P s → P (step s a)) {s : σ}
    (hs : P s) (as : List α) : P (run step s as) :=
  invariant_run (fun s a _ => hstep s a) (admissible_true s as) hs

/-- **Monotonicity rule.**  A preorder between states that every admissible step respects, in the
states that satisfy an invariant, relates the first state of an admissible run to its last. -/
theorem relates_run {C : σ → α → Prop} {P : σ → Prop} {R : σ → σ → Prop}
    (hrefl : ∀ s, R s s) (htrans : ∀ {s t u}, R s t → R t u → R s u)
    (hP : ∀ s a, C s a → P s → P (step s a)) (hR : ∀ s a, C s a → P s → R s (step s a))
    {s : σ} {as : List α} (has : Admissible step C s as) (hs : P s) : R s (run step s as) := by
  induction as generalizing s with
  | nil => exact hrefl s
  | cons a as ih =>
    exact htrans (hR s a has.1 hs) (ih has.2 (hP s a has.1 hs))

/-- **First-failure rule.**  Let `D` be a condition on the steps such that a step that meets it
keeps the invariant `P`, which implies the property `G`, and a step that misses it leads to a state
without `G`.  Then `G` holds after every part of a run exactly when every step of the run meets
`D`. -/
theorem forall_prefix_iff_admissible {C D : σ → α → Prop} {P G : σ → Prop} (hPG : ∀ s, P s → G s)
    (hgood : ∀ s a, C s a → D s a → P s → P (step s a))
    (hbad : ∀ s a, C s a → ¬D s a → P s → ¬G (step s a))
    {s : σ} {as : List α} (has : Admissible step C s as) (hs : P s) :
    (∀ bs, bs <+: as → G (run step s bs)) ↔ Admissible step D s as := by
  induction as generalizing s with
  | nil =>
    apply iff_of_true
    · intro bs hbs
      rw [List.prefix_nil.mp hbs]
      exact hPG s hs
    · trivial
  | cons a as ih =>
    rw [admissible_cons]
    by_cases hD : D s a
    · rw [← ih has.2 (hgood s a has.1 hD hs)]
      constructor
      · intro h
        exact ⟨hD, fun bs hbs => h (a :: bs) (List.cons_prefix_cons.mpr ⟨rfl, hbs⟩)⟩
      · rintro ⟨-, h⟩ bs hbs
        rcases List.prefix_cons_iff.mp hbs with rfl | ⟨cs, rfl, hcs⟩
        · exact hPG s hs
        · exact h cs hcs
    · apply iff_of_false
      · intro h
        exact hbad s a has.1 hD hs (h [a] (List.cons_prefix_cons.mpr ⟨rfl, List.nil_prefix⟩))
      · intro h
        exact hD h.1

/-- The first-failure rule when nothing else is asked of the steps. -/
theorem forall_prefix_iff_of_step {D : σ → α → Prop} {P G : σ → Prop} (hPG : ∀ s, P s → G s)
    (hgood : ∀ s a, D s a → P s → P (step s a)) (hbad : ∀ s a, ¬D s a → P s → ¬G (step s a))
    {s : σ} {as : List α} (hs : P s) :
    (∀ bs, bs <+: as → G (run step s bs)) ↔ Admissible step D s as :=
  forall_prefix_iff_admissible hPG (fun s a _ => hgood s a) (fun s a _ => hbad s a)
    (admissible_true s as) hs

/-! ## Steps that can fail -/

section Partial

variable {step? : σ → α → Option σ}

/-- A step that fails leaves the state as it is. -/
def total (step? : σ → α → Option σ) (s : σ) (a : α) : σ :=
  (step? s a).getD s

/-- A run of steps that can fail succeeds when each of them does. -/
lemma isSome_foldlM_iff {s : σ} {as : List α} :
    (as.foldlM step? s).isSome ↔ Admissible (total step?) (fun s a => (step? s a).isSome) s as := by
  induction as generalizing s with
  | nil => exact iff_of_true rfl trivial
  | cons a as ih =>
    rw [List.foldlM_cons, admissible_cons]
    cases hfirst : step? s a with
    | none => simp
    | some s' =>
      have htotal : total step? s a = s' := by rw [total, hfirst, Option.getD_some]
      rw [htotal, ← ih]
      exact (and_iff_right rfl).symm

/-- A run that succeeds is a run of the total steps. -/
lemma run_eq_of_foldlM {s s' : σ} {as : List α} (h : as.foldlM step? s = some s') :
    run (total step?) s as = s' := by
  induction as generalizing s with
  | nil => exact Option.some_inj.mp h
  | cons a as ih =>
    rw [List.foldlM_cons] at h
    cases hfirst : step? s a with
    | none =>
      rw [hfirst] at h
      exact absurd h (Option.some_ne_none s').symm
    | some t =>
      rw [hfirst] at h
      rw [run_cons, total, hfirst, Option.getD_some]
      exact ih h

end Partial

/-! ## A system with additional state -/

section Projection

variable {τ : Type*} {step' : τ → α → τ} {proj : τ → σ}

/-- A system whose steps agree with those of another system under a projection runs like it. -/
lemma proj_run (hproj : ∀ t a, proj (step' t a) = step (proj t) a) (t : τ) (as : List α) :
    proj (run step' t as) = run step (proj t) as := by
  induction as generalizing t with
  | nil => rfl
  | cons a as ih => rw [run_cons, run_cons, ih, hproj]

/-- A condition on the projected states holds along both runs alike. -/
lemma admissible_proj (hproj : ∀ t a, proj (step' t a) = step (proj t) a) {C : σ → α → Prop}
    (t : τ) (as : List α) :
    Admissible step' (fun t a => C (proj t) a) t as ↔ Admissible step C (proj t) as := by
  induction as generalizing t with
  | nil => exact Iff.rfl
  | cons a as ih => rw [admissible_cons, admissible_cons, ih, hproj]

end Projection

/-! ## Sums along a run -/

section SumAlong

variable {M : Type*} [AddCommMonoid M] (step)

/-- The sum of the quantity `g` over the steps of the run. -/
def sumAlong (g : σ → α → M) : σ → List α → M
  | _, [] => 0
  | s, a :: as => g s a + sumAlong g (step s a) as

@[simp] lemma sumAlong_nil (g : σ → α → M) (s : σ) : sumAlong step g s [] = 0 := rfl

@[simp] lemma sumAlong_cons (g : σ → α → M) (s : σ) (a : α) (as : List α) :
    sumAlong step g s (a :: as) = g s a + sumAlong step g (step s a) as := rfl

variable {step}

/-- **Accounting rule.**  When every admissible step, taken in a state that satisfies an invariant,
changes the measure `m` by the quantity `g`, the run changes it by the sum of `g` along the run. -/
theorem measure_run {C : σ → α → Prop} {P : σ → Prop} {g : σ → α → M} {m : σ → M}
    (hP : ∀ s a, C s a → P s → P (step s a)) (hm : ∀ s a, C s a → P s → m (step s a) = m s + g s a)
    {s : σ} {as : List α} (has : Admissible step C s as) (hs : P s) :
    m (run step s as) = m s + sumAlong step g s as := by
  induction as generalizing s with
  | nil => simp
  | cons a as ih =>
    rw [run_cons, ih has.2 (hP s a has.1 hs), hm s a has.1 hs, sumAlong_cons, add_assoc]

/-- **Potential rule.**  When every admissible step, taken in a state that satisfies an invariant,
pays for the quantity `g` out of the potential `m`, the run pays for the sum of `g` along it. -/
theorem potential_run [Preorder M] [IsOrderedAddMonoid M] {C : σ → α → Prop} {P : σ → Prop}
    {g : σ → α → M} {m : σ → M} (hP : ∀ s a, C s a → P s → P (step s a))
    (hm : ∀ s a, C s a → P s → m (step s a) + g s a ≤ m s)
    {s : σ} {as : List α} (has : Admissible step C s as) (hs : P s) :
    m (run step s as) + sumAlong step g s as ≤ m s := by
  induction as generalizing s with
  | nil => simp
  | cons a as ih =>
    calc m (run step s (a :: as)) + sumAlong step g s (a :: as)
        = m (run step (step s a) as) + sumAlong step g (step s a) as + g s a := by
          rw [run_cons, sumAlong_cons, add_comm (g s a), add_assoc]
      _ ≤ m (step s a) + g s a := add_le_add_left (ih has.2 (hP s a has.1 hs)) _
      _ ≤ m s := hm s a has.1 hs

/-- A sum along a run distributes over addition. -/
lemma sumAlong_add (f g : σ → α → M) (s : σ) (as : List α) :
    sumAlong step (fun s a => f s a + g s a) s as =
      sumAlong step f s as + sumAlong step g s as := by
  induction as generalizing s with
  | nil => simp
  | cons a as ih => rw [sumAlong_cons, sumAlong_cons, sumAlong_cons, ih, add_add_add_comm]

/-- A sum along a run distributes over subtraction. -/
lemma sumAlong_sub {M : Type*} [AddCommGroup M] (f g : σ → α → M) (s : σ) (as : List α) :
    sumAlong step (fun s a => f s a - g s a) s as =
      sumAlong step f s as - sumAlong step g s as := by
  induction as generalizing s with
  | nil => simp
  | cons a as ih => rw [sumAlong_cons, sumAlong_cons, sumAlong_cons, ih, add_sub_add_comm]

/-- A quantity that only depends on the actions adds up over the list of actions. -/
lemma sumAlong_action (f : α → M) (s : σ) (as : List α) :
    sumAlong step (fun _ a => f a) s as = (as.map f).sum := by
  induction as generalizing s with
  | nil => rfl
  | cons a as ih => rw [sumAlong_cons, ih, List.map_cons, List.sum_cons]

/-- One for each action of a kind adds up to the number of these actions. -/
lemma sumAlong_countP (p : α → Bool) (s : σ) (as : List α) :
    sumAlong step (fun _ a => if p a then 1 else 0) s as = as.countP p := by
  induction as generalizing s with
  | nil => rfl
  | cons a as ih => rw [sumAlong_cons, ih, List.countP_cons, Nat.add_comm]

/-- A quantity of the projected states adds up alike along both runs. -/
lemma sumAlong_proj {τ : Type*} {step' : τ → α → τ} {proj : τ → σ}
    (hproj : ∀ t a, proj (step' t a) = step (proj t) a) (g : σ → α → M) (t : τ) (as : List α) :
    sumAlong step' (fun t a => g (proj t) a) t as = sumAlong step g (proj t) as := by
  induction as generalizing t with
  | nil => rfl
  | cons a as ih => rw [sumAlong_cons, sumAlong_cons, ih, hproj]

/-- A sum along a run of quantities that are not negative is not negative. -/
lemma sumAlong_nonneg [PartialOrder M] [IsOrderedAddMonoid M] {g : σ → α → M}
    (hg : ∀ s a, 0 ≤ g s a) (s : σ) (as : List α) : 0 ≤ sumAlong step g s as := by
  induction as generalizing s with
  | nil => exact le_rfl
  | cons a as ih => exact add_nonneg (hg s a) (ih _)

/-- The absolute value of a sum along an admissible run is at most the sum of the bounds of its
terms. -/
lemma abs_sumAlong_le {M : Type*} [AddCommGroup M] [LinearOrder M] [IsOrderedAddMonoid M]
    {C : σ → α → Prop} {f g : σ → α → M} (hle : ∀ s a, C s a → |f s a| ≤ g s a) {s : σ}
    {as : List α} (has : Admissible step C s as) :
    |sumAlong step f s as| ≤ sumAlong step g s as := by
  induction as generalizing s with
  | nil => simp
  | cons a as ih => exact (abs_add_le ..).trans (add_le_add (hle s a has.1) (ih has.2))

/-- A sum along a run of quantities that are not negative is zero only when no step adds to it. -/
lemma sumAlong_eq_zero_iff [PartialOrder M] [IsOrderedAddMonoid M] {g : σ → α → M}
    (hg : ∀ s a, 0 ≤ g s a) (s : σ) (as : List α) :
    sumAlong step g s as = 0 ↔ Admissible step (fun s a => g s a = 0) s as := by
  induction as generalizing s with
  | nil => simp
  | cons a as ih =>
    rw [sumAlong_cons, add_eq_zero_iff_of_nonneg (hg s a) (sumAlong_nonneg hg _ as), ih,
      admissible_cons]

end SumAlong

/-! ## What is observed of a run -/

section Observe

variable {β : Type*} (step)

/-- What an observer notes who sees `f s a` of a step with the action `a` in the state `s`. -/
def observe (f : σ → α → List β) : σ → List α → List β
  | _, [] => []
  | s, a :: as => f s a ++ observe f (step s a) as

@[simp] lemma observe_nil (f : σ → α → List β) (s : σ) : observe step f s [] = [] := rfl

@[simp] lemma observe_cons (f : σ → α → List β) (s : σ) (a : α) (as : List α) :
    observe step f s (a :: as) = f s a ++ observe step f (step s a) as := rfl

/-- The last step adds what is seen of it. -/
lemma observe_concat (f : σ → α → List β) (s : σ) (as : List α) (a : α) :
    observe step f s (as ++ [a]) = observe step f s as ++ f (run step s as) a := by
  induction as generalizing s with
  | nil => simp
  | cons b as ih => rw [List.cons_append, observe_cons, ih, observe_cons, List.append_assoc,
      run_cons]

/-- What is observed has a property that what is seen of every step has. -/
lemma forall_mem_observe {f : σ → α → List β} {Q : β → Prop} {as : List α}
    (h : ∀ a ∈ as, ∀ s, ∀ b ∈ f s a, Q b) (s : σ) : ∀ b ∈ observe step f s as, Q b := by
  induction as generalizing s with
  | nil => exact fun b hb => absurd hb List.not_mem_nil
  | cons a as ih =>
    rw [observe_cons, List.forall_mem_append]
    exact ⟨h a List.mem_cons_self s, ih (fun b hb => h b (List.mem_cons_of_mem a hb)) _⟩

variable {step}

/-- **Observation rule.**  A relation between the state and what was observed so far, which every
step keeps, holds at the end of every run. -/
theorem invariant_observe {f : σ → α → List β} {P : σ → List β → Prop}
    (hstep : ∀ s seen a, P s seen → P (step s a) (seen ++ f s a)) {s : σ} (hs : P s [])
    (as : List α) : P (run step s as) (observe step f s as) := by
  induction as using List.reverseRecOn with
  | nil => exact hs
  | append_singleton as a ih =>
    rw [run_concat, observe_concat]
    exact hstep _ _ a ih

end Observe

end Transition
