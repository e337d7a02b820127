import Mathlib.Algebra.BigOperators.Group.List.Basic
import Mathlib.Algebra.Ring.Int.Defs
import Mathlib.Data.List.Induction
import QuantTrade.Library.Transition
import QuantTrade.Risk.CircuitBreaker

/-!
# The circuit breaker latches

A breaker gets calls of `update_pnl` and `reset`.  `sinceReset` is the history that counts: the
changes of the profit and loss since construction or the last reset.  The breaker refuses orders
exactly when the accumulated profit and loss was at or below the threshold after one of these
changes (`allowOrder_eq_false_iff_tripped`), so no profit closes it again.
-/

namespace QuantTrade

namespace CircuitBreaker

/-- The calls that act on a breaker. -/
inductive Call where
  | updatePnl (delta : ℤ)
  | reset

/-- The breaker after a call. -/
def perform (cb : CircuitBreaker) : Call → CircuitBreaker
  | .updatePnl delta => cb.updatePnl delta
  | .reset => cb.reset

/-- The breaker after the calls. -/
def after (openThreshold : ℤ) (calls : List Call) : CircuitBreaker :=
  Transition.run perform (init openThreshold) calls

/-- The changes noted since the last reset, one call later. -/
def note (deltas : List ℤ) : Call → List ℤ
  | .updatePnl delta => deltas ++ [delta]
  | .reset => []

/-- The changes of the profit and loss since construction or the last reset, in order. -/
def sinceReset (calls : List Call) : List ℤ :=
  Transition.run note [] calls

/-- After one of the changes their sum was at or below the threshold. -/
def Tripped (openThreshold : ℤ) (deltas : List ℤ) : Prop :=
  ∃ p, p <+: deltas ∧ p ≠ [] ∧ p.sum ≤ openThreshold

lemma not_tripped_nil (openThreshold : ℤ) : ¬Tripped openThreshold [] := by
  rintro ⟨p, hp, hne, -⟩
  exact hne (List.prefix_nil.mp hp)

/-- One more change trips the breaker when the new sum is at or below the threshold. -/
lemma tripped_concat (openThreshold : ℤ) (deltas : List ℤ) (delta : ℤ) :
    Tripped openThreshold (deltas ++ [delta]) ↔
      Tripped openThreshold deltas ∨ deltas.sum + delta ≤ openThreshold := by
  constructor
  · rintro ⟨p, hp, hne, hsum⟩
    rcases List.prefix_concat_iff.mp hp with rfl | hp'
    · right
      simpa using hsum
    · left
      exact ⟨p, hp', hne, hsum⟩
  · rintro (⟨p, hp, hne, hsum⟩ | hsum)
    · exact ⟨p, hp.trans (List.prefix_append _ _), hne, hsum⟩
    · exact ⟨deltas ++ [delta], List.prefix_rfl, by simp, by simpa using hsum⟩

/-- What the breaker remembers of its history. -/
structure Remembers (openThreshold : ℤ) (cb : CircuitBreaker) (deltas : List ℤ) : Prop where
  openThreshold_eq : cb.openThreshold = openThreshold
  dailyPnl_eq : cb.dailyPnl = deltas.sum
  state_ne_closed_iff : cb.state ≠ .closed ↔ Tripped openThreshold deltas

lemma remembers_init (openThreshold : ℤ) : Remembers openThreshold (init openThreshold) [] :=
  ⟨rfl, rfl, iff_of_false (fun h => h rfl) (not_tripped_nil openThreshold)⟩

/-- `update_pnl` leaves the closed state exactly when the new sum is at or below the threshold, and
never enters it. -/
lemma state_updatePnl_ne_closed_iff (cb : CircuitBreaker) (delta : ℤ) :
    (cb.updatePnl delta).state ≠ .closed ↔
      cb.state ≠ .closed ∨ cb.dailyPnl + delta ≤ cb.openThreshold := by
  unfold updatePnl
  by_cases hopen : cb.dailyPnl + delta ≤ cb.openThreshold
  · cases hstate : cb.state <;> simp [hopen]
  · by_cases hhalf : cb.dailyPnl + delta > cb.halfOpenThreshold
    · cases hstate : cb.state <;> simp [hopen, hhalf]
    · simp [hopen, hhalf]

/-- Every call keeps breaker and history in step. -/
lemma Remembers.perform {openThreshold : ℤ} {cb : CircuitBreaker} {deltas : List ℤ}
    (h : Remembers openThreshold cb deltas) (c : Call) :
    Remembers openThreshold (cb.perform c) (note deltas c) := by
  cases c with
  | updatePnl delta =>
    refine ⟨h.openThreshold_eq, ?_, ?_⟩
    · change cb.dailyPnl + delta = (deltas ++ [delta]).sum
      rw [h.dailyPnl_eq, List.sum_append, List.sum_singleton]
    · change (cb.updatePnl delta).state ≠ .closed ↔ Tripped openThreshold (deltas ++ [delta])
      rw [state_updatePnl_ne_closed_iff, tripped_concat, h.state_ne_closed_iff, h.dailyPnl_eq,
        h.openThreshold_eq]
  | reset =>
    exact ⟨h.openThreshold_eq, rfl, iff_of_false (fun hne => hne rfl) (not_tripped_nil _)⟩

lemma remembers_after (openThreshold : ℤ) (calls : List Call) :
    Remembers openThreshold (after openThreshold calls) (sinceReset calls) := by
  induction calls using List.reverseRecOn with
  | nil => exact remembers_init openThreshold
  | append_singleton calls c ih =>
    rw [after, sinceReset, Transition.run_concat, Transition.run_concat]
    exact ih.perform c

lemma allowOrder_eq_false_iff (cb : CircuitBreaker) :
    cb.allowOrder = false ↔ cb.state ≠ .closed := by
  simp [allowOrder]

/-- Changes without a reset only lengthen the history. -/
lemma sinceReset_append_updates (calls : List Call) (deltas : List ℤ) :
    sinceReset (calls ++ deltas.map .updatePnl) = sinceReset calls ++ deltas := by
  induction deltas using List.reverseRecOn with
  | nil => simp
  | append_singleton deltas delta ih =>
    rw [List.map_append, ← List.append_assoc, List.map_singleton, sinceReset,
      Transition.run_concat, ← List.append_assoc, ← ih]
    rfl

/-- **The breaker latches.**  Orders are refused exactly when, since construction or the last reset,
the accumulated profit and loss was at or below the threshold after one of the changes; and once
they are, no sequence of changes without a reset allows them again. -/
theorem allowOrder_eq_false_iff_tripped (openThreshold : ℤ) (calls : List Call) :
    ((after openThreshold calls).allowOrder = false ↔
        Tripped openThreshold (sinceReset calls)) ∧
      ∀ deltas : List ℤ, (after openThreshold calls).allowOrder = false →
        (after openThreshold (calls ++ deltas.map .updatePnl)).allowOrder = false := by
  have hiff : ∀ calls, (after openThreshold calls).allowOrder = false ↔
      Tripped openThreshold (sinceReset calls) := by
    intro calls
    rw [allowOrder_eq_false_iff, (remembers_after openThreshold calls).state_ne_closed_iff]
  refine ⟨hiff calls, ?_⟩
  intro deltas h
  obtain ⟨p, hp, hne, hsum⟩ := (hiff calls).mp h
  rw [hiff, sinceReset_append_updates]
  exact ⟨p, hp.trans (List.prefix_append _ _), hne, hsum⟩

/-- A loss of 60 with a threshold of -50, and a large profit after it. -/
example : (after (-50) [.updatePnl (-60), .updatePnl 1000]).state = .halfOpen := by decide

end CircuitBreaker

end QuantTrade
