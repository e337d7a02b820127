import Mathlib.Logic.Function.Iterate
import Mathlib.Data.List.Basic

/-!
# Sweeping a queue

A loop takes as many elements from the front of a queue as there were at its beginning.  Each of
them acts on a state and may put a successor of itself at the back.  The sweep visits every element
once, in their order, and leaves the successors in this order (`iterate_visit`).
-/

namespace QueueSweep

variable {σ α : Type*} (keep : α → Option α) (act : σ → α → σ)

/-- One round of the loop. -/
def visit : List α × σ → List α × σ
  | ([], s) => ([], s)
  | (a :: queue, s) => (queue ++ (keep a).toList, act s a)

/-- The rounds for the elements in front of the others. -/
lemma iterate_visit_append (queue behind : List α) (s : σ) :
    (visit keep act)^[queue.length] (queue ++ behind, s) =
      (behind ++ queue.filterMap keep, queue.foldl act s) := by
  induction queue generalizing behind s with
  | nil => simp
  | cons a queue ih =>
    have hround : visit keep act (a :: queue ++ behind, s) =
        (queue ++ (behind ++ (keep a).toList), act s a) := by
      rw [List.cons_append, visit, List.append_assoc]
    have hkeep : (keep a).toList ++ queue.filterMap keep = (a :: queue).filterMap keep := by
      cases h : keep a with
      | none => rw [List.filterMap_cons_none h, Option.toList_none, List.nil_append]
      | some b => rw [List.filterMap_cons_some h, Option.toList_some, List.singleton_append]
    rw [List.length_cons, Function.iterate_succ_apply, hround, ih, List.append_assoc, hkeep,
      List.foldl_cons]

/-- The whole sweep. -/
theorem iterate_visit (queue : List α) (s : σ) :
    (visit keep act)^[queue.length] (queue, s) = (queue.filterMap keep, queue.foldl act s) := by
  have h := iterate_visit_append keep act queue [] s
  rwa [List.append_nil, List.nil_append] at h

end QueueSweep
