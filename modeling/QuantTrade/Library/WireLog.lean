import Mathlib.Data.List.Pairwise
import QuantTrade.Library.Transition

/-!
# Messages that are written in part

A log of what a sender tried to write to a stream and what of it was written.  The stream stays
framed when no message follows one that was written in part (`Framed`).

A system that never completes a message keeps its stream framed in a run exactly when, once a
message is broken, nothing more is written (`framed_run_iff`).
-/

namespace WireLog

variable {α σ β : Type*}

/-- A message, and what was written of it. -/
structure Transmission (α : Type*) where
  message : List α
  written : List α
  deriving DecidableEq

/-- When two messages have both put something on the stream, the first one is complete. -/
def Framed (log : List (Transmission α)) : Prop :=
  log.Pairwise fun t u => t.written ≠ [] → u.written ≠ [] → t.written = t.message

/-- A message is on the stream in part. -/
def Broken (log : List (Transmission α)) : Prop :=
  ∃ t ∈ log, t.written ≠ [] ∧ t.written ≠ t.message

instance [DecidableEq α] (log : List (Transmission α)) : Decidable (Broken log) :=
  inferInstanceAs (Decidable (∃ t ∈ log, _))

instance [DecidableEq α] (log : List (Transmission α)) : Decidable (Framed log) :=
  inferInstanceAs (Decidable (log.Pairwise _))

lemma framed_nil : Framed ([] : List (Transmission α)) :=
  List.Pairwise.nil

/-- A transmission keeps the stream framed unless it puts something behind a broken message. -/
lemma framed_concat {log : List (Transmission α)} {t : Transmission α} :
    Framed (log ++ [t]) ↔ Framed log ∧ (Broken log → t.written = []) := by
  unfold Framed Broken
  rw [List.pairwise_append]
  constructor
  · rintro ⟨hlog, -, hlast⟩
    refine ⟨hlog, ?_⟩
    rintro ⟨u, hu, hne, hpart⟩
    by_contra hwritten
    exact hpart (hlast u hu t (List.mem_singleton_self t) hne hwritten)
  · rintro ⟨hlog, hlast⟩
    refine ⟨hlog, List.pairwise_singleton .., ?_⟩
    intro u hu v hv hne hwritten
    rw [List.mem_singleton.mp hv] at hwritten
    by_contra hpart
    exact hwritten (hlast ⟨u, hu, hne, hpart⟩)

/-- What was framed before is framed. -/
lemma Framed.of_append {log log' : List (Transmission α)} (h : Framed (log ++ log')) : Framed log :=
  (List.pairwise_append.mp h).1

/-- **Broken messages.**  Let every step log one transmission, which writes nothing exactly when
the condition `D` holds of the step.  Then the log of a run is framed exactly when `D` holds of
every step taken after a message is broken. -/
theorem framed_run_iff {step : σ → β → σ} {log : σ → List (Transmission α)} {C D : σ → β → Prop}
    {P : σ → Prop} (hP : ∀ s a, C s a → P s → P (step s a))
    (hlog : ∀ s a, C s a → P s →
      ∃ t, log (step s a) = log s ++ [t] ∧ (t.written = [] ↔ D s a))
    {s : σ} {as : List β} (has : Transition.Admissible step C s as) (hs : P s)
    (hframed : Framed (log s)) :
    Framed (log (Transition.run step s as)) ↔
      Transition.Admissible step (fun s a => Broken (log s) → D s a) s as := by
  induction as generalizing s with
  | nil => exact iff_of_true hframed trivial
  | cons a as ih =>
    obtain ⟨t, ht, hwritten⟩ := hlog s a has.1 hs
    have hfirst : Framed (log (step s a)) ↔ (Broken (log s) → D s a) := by
      rw [ht, framed_concat, hwritten]
      exact and_iff_right hframed
    rw [Transition.run_cons, Transition.admissible_cons]
    by_cases hD : Broken (log s) → D s a
    · rw [ih has.2 (hP s a has.1 hs) (hfirst.mpr hD)]
      exact (and_iff_right hD).symm
    · apply iff_of_false
      · intro hall
        -- the log only grows, so the step stays unframed
        obtain ⟨rest, hrest⟩ := Transition.relates_run (R := fun s s' => log s <+: log s')
          (fun _ => List.prefix_rfl) (fun h h' => h.trans h') hP
          (fun s a hC hs => by
            obtain ⟨u, hu, -⟩ := hlog s a hC hs
            exact hu ▸ List.prefix_append _ _) has.2 (hP s a has.1 hs)
        rw [← hrest] at hall
        exact hD (hfirst.mp hall.of_append)
      · exact fun h => hD h.1

end WireLog
