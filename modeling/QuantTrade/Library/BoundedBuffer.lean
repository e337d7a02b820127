import Mathlib.Data.List.Basic
import Mathlib.Data.List.Infix
import Mathlib.Tactic.Common

/-!
# Buffers of fixed capacity

A buffer has as many places as its capacity says, and a position where the next element goes.  A
store outside of its places fails.  What stands up to the position is a list (`Contains`); a
computation with stores that all succeed leaves a buffer with a list (`Writes`).  The rules for the
single operations ask for their room, and `Writes.bind` puts them together.
-/

/-- The places of a buffer and the position where the next element goes. -/
structure BoundedBuffer (α : Type*) (cap : ℕ) where
  places : Vector α cap
  pos : ℕ

namespace BoundedBuffer

variable {α : Type*} {cap : ℕ}

/-- A store at a place. -/
def store? (b : BoundedBuffer α cap) (i : ℕ) (a : α) : Option (BoundedBuffer α cap) :=
  if h : i < cap then some { b with places := b.places.set i a } else none

/-- A store some places before the position, which may be before the buffer. -/
def storeBack? (b : BoundedBuffer α cap) (k : ℕ) (a : α) : Option (BoundedBuffer α cap) :=
  if b.pos < k then none else b.store? (b.pos - k) a

/-- A store at the position. -/
def push? (b : BoundedBuffer α cap) (a : α) : Option (BoundedBuffer α cap) :=
  (b.store? b.pos a).map fun b' => { b' with pos := b.pos + 1 }

/-- Stores from the position on. -/
def append? (b : BoundedBuffer α cap) (l : List α) : Option (BoundedBuffer α cap) :=
  l.foldlM push? b

/-- What stands up to the position. -/
def written (b : BoundedBuffer α cap) : List α :=
  b.places.toList.take b.pos

/-- The list stands up to the position, which is inside of the buffer or at its end. -/
def Contains (b : BoundedBuffer α cap) (l : List α) : Prop :=
  b.pos = l.length ∧ l <+: b.places.toList

/-- No store fails, and the list is what they leave. -/
def Writes (result : Option (BoundedBuffer α cap)) (l : List α) : Prop :=
  ∃ b ∈ result, b.Contains l

section Rules

variable {b : BoundedBuffer α cap} {l l' : List α} {a : α}

/-- A buffer in which nothing is written. -/
lemma contains_nil (places : Vector α cap) : Contains ⟨places, 0⟩ [] :=
  ⟨rfl, List.nil_prefix⟩

lemma Contains.writes (h : b.Contains l) : Writes (some b) l :=
  ⟨b, rfl, h⟩

lemma Contains.length_le (h : b.Contains l) : l.length ≤ cap := by
  have hle := h.2.length_le
  rwa [Vector.length_toList] at hle

lemma Contains.written_eq (h : b.Contains l) : b.written = l := by
  rw [written, h.1]
  exact (List.prefix_iff_eq_take.mp h.2).symm

/-- Something that is written can be overwritten. -/
lemma Contains.store? {i : ℕ} (h : b.Contains l) (hi : i < l.length) (a : α) :
    Writes (b.store? i a) (l.set i a) := by
  have hcap := hi.trans_le h.length_le
  refine ⟨{ b with places := b.places.set i a }, dif_pos hcap, ?_, ?_⟩
  · rw [List.length_set]
    exact h.1
  · obtain ⟨rest, hrest⟩ := h.2
    refine ⟨rest, ?_⟩
    rw [Vector.toList_set, ← hrest, List.set_append_left _ _ hi]

/-- What is written is overwritten from its end. -/
lemma Contains.storeBack? {k : ℕ} (h : b.Contains l) (hk : k ≤ l.length) (hpos : 0 < k) (a : α) :
    Writes (b.storeBack? k a) (l.set (l.length - k) a) := by
  rw [BoundedBuffer.storeBack?, h.1, if_neg (by omega)]
  exact h.store? (by omega) a

/-- Where there is room, an element is put behind the others. -/
lemma Contains.push? (h : b.Contains l) (hroom : l.length < cap) (a : α) :
    Writes (b.push? a) (l ++ [a]) := by
  have hpos : b.pos < cap := h.1 ▸ hroom
  refine ⟨⟨b.places.set b.pos a, b.pos + 1⟩, ?_, ?_, ?_⟩
  · rw [BoundedBuffer.push?, BoundedBuffer.store?, dif_pos hpos]
    rfl
  · rw [List.length_append, List.length_singleton]
    exact congrArg (· + 1) h.1
  · obtain ⟨rest, hrest⟩ := h.2
    cases rest with
    | nil =>
      have hlength := congrArg List.length hrest
      rw [List.append_nil, Vector.length_toList] at hlength
      omega
    | cons c rest =>
      refine ⟨rest, ?_⟩
      rw [Vector.toList_set, ← hrest, h.1, List.set_append_right _ _ le_rfl, Nat.sub_self,
        List.set_cons_zero, List.append_assoc, List.singleton_append]

/-- Computations one after the other. -/
lemma Writes.bind {result : Option (BoundedBuffer α cap)}
    {next : BoundedBuffer α cap → Option (BoundedBuffer α cap)} (h : Writes result l)
    (hnext : ∀ b, b.Contains l → Writes (next b) l') : Writes (result >>= next) l' := by
  obtain ⟨b, rfl, hb⟩ := h
  exact hnext b hb

/-- Where there is room, a list is put behind the others. -/
lemma Contains.append? (h : b.Contains l) (hroom : l.length + l'.length ≤ cap) :
    Writes (b.append? l') (l ++ l') := by
  induction l' generalizing b l with
  | nil =>
    rw [List.append_nil]
    exact h.writes
  | cons a l' ih =>
    rw [List.length_cons] at hroom
    rw [BoundedBuffer.append?, List.foldlM_cons]
    refine (h.push? (by omega) a).bind fun b hb => ?_
    have hrest := ih hb (by rw [List.length_append, List.length_singleton]; omega)
    rwa [List.append_assoc, List.singleton_append] at hrest

/-- A computation for each element of a list. -/
lemma Contains.foldlM {β : Type*} {step : BoundedBuffer α cap → β → Option (BoundedBuffer α cap)}
    {f : List α → β → List α} (h : b.Contains l)
    (hstep : ∀ b l x, b.Contains l → Writes (step b x) (f l x)) (xs : List β) :
    Writes (xs.foldlM step b) (xs.foldl f l) := by
  induction xs generalizing b l with
  | nil => exact h.writes
  | cons x xs ih =>
    rw [List.foldlM_cons, List.foldl_cons]
    exact (hstep b l x h).bind fun b hb => ih hb

end Rules

end BoundedBuffer
