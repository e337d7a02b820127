import Mathlib.Data.List.Basic

/-!
# Bounded first-in first-out queues

The abstract queue: its value is the list of the elements it holds, oldest first, and it holds at
most `cap` of them.  `push` appends an element when there is room and reports whether it did; `pop`
removes the oldest element, if any.
-/

namespace BoundedFifo

variable {α : Type*}

/-- Append `v` when fewer than `cap` elements are held. -/
def push (cap : ℕ) (l : List α) (v : α) : List α × Bool :=
  if l.length = cap then (l, false) else (l ++ [v], true)

/-- Remove the oldest element, if any. -/
def pop (l : List α) : Option α × List α :=
  (l.head?, l.tail)

lemma push_of_length_eq {cap : ℕ} {l : List α} (h : l.length = cap) (v : α) :
    push cap l v = (l, false) :=
  if_pos h

lemma push_of_length_ne {cap : ℕ} {l : List α} (h : l.length ≠ cap) (v : α) :
    push cap l v = (l ++ [v], true) :=
  if_neg h

/-- A push appends, and what is too much is cut off. -/
lemma push_fst {cap : ℕ} {l : List α} (h : l.length ≤ cap) (v : α) :
    (push cap l v).1 = (l ++ [v]).take cap := by
  by_cases hfull : l.length = cap
  · rw [push_of_length_eq hfull, List.take_append_of_le_length (Nat.le_of_eq hfull.symm),
      List.take_of_length_le h]
  · rw [push_of_length_ne hfull, List.take_of_length_le]
    rw [List.length_append, List.length_singleton]
    omega

/-- What was cut off once does not come back. -/
lemma take_append_take (cap : ℕ) (l vs : List α) :
    (l.take cap ++ vs).take cap = (l ++ vs).take cap := by
  rcases Nat.le_total l.length cap with hroom | hfull
  · rw [List.take_of_length_le hroom]
  · have hlength : (l.take cap).length = cap := by
      rw [List.length_take]
      exact Nat.min_eq_left hfull
    rw [List.take_append_of_le_length (Nat.le_of_eq hlength.symm),
      List.take_append_of_le_length hfull, List.take_take, Nat.min_self]

/-- A push lengthens the queue up to its capacity. -/
lemma length_push {cap : ℕ} {l : List α} (h : l.length ≤ cap) (v : α) :
    (push cap l v).1.length = min (l.length + 1) cap := by
  by_cases hl : l.length = cap
  · simp only [push_of_length_eq hl]
    omega
  · simp only [push_of_length_ne hl, List.length_append, List.length_singleton]
    omega

/-- After a push the queue holds nothing but its former elements and the new one. -/
lemma mem_of_mem_push {cap : ℕ} {l : List α} {v w : α} (h : w ∈ (push cap l v).1) :
    w ∈ l ∨ w = v := by
  by_cases hl : l.length = cap
  · rw [push_of_length_eq hl] at h
    exact Or.inl h
  · rw [push_of_length_ne hl] at h
    simpa using h

@[simp] lemma pop_nil : pop ([] : List α) = (none, []) := rfl

@[simp] lemma pop_cons (v : α) (l : List α) : pop (v :: l) = (some v, l) := rfl

end BoundedFifo
