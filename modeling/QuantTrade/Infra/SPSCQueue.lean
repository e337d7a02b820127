import Mathlib.Data.Nat.Bitwise
import Mathlib.Data.Int.ModEq
import Mathlib.Logic.Function.Basic
import Mathlib.Tactic.Common
import QuantTrade.Library.BoundedFifo
import QuantTrade.Library.RingIndex

/-!
# The single-producer single-consumer ring buffer

`SPSCQueue` of `src/infra/spsc_queue.hpp`, one call of `push` or `pop` at a time.  The indices
`tail` and `head` are 64-bit counters that run on and wrap around; the slot of an index is its
value masked by `N - 1`.  The structure carries the compile-time requirement on `N` and the bound
`tail - head ≤ N`, so that a queue holds at most `N` elements by construction.

`contents` reads the queue as a list, oldest element first, and the two operations refine the
abstract bounded queue: `contents_push` and `contents_pop`.
-/

namespace QuantTrade

/-- A ring buffer of `N` slots. -/
structure SPSCQueue (α : Type) (N : ℕ) where
  tail : BitVec 64
  head : BitVec 64
  buffer : ℕ → α
  /-- `N` is a power of two that a `size_t` can hold. -/
  pow_two : ∃ k < 64, N = 2 ^ k
  size_le : (tail - head).toNat ≤ N

namespace SPSCQueue

variable {α : Type} {N : ℕ}

/-- The slot of an index: `index & MASK`. -/
def slot (N : ℕ) (index : BitVec 64) : ℕ :=
  index.toNat &&& (N - 1)

/-- The empty queue; the slots of a fresh buffer are not initialised. -/
def empty (uninit : ℕ → α) (h : ∃ k < 64, N = 2 ^ k) : SPSCQueue α N where
  tail := 0
  head := 0
  buffer := uninit
  pow_two := h
  size_le := Nat.zero_le N

/-- The capacities that are in use are powers of two. -/
lemma capacity_64 : ∃ k < 64, 64 = 2 ^ k :=
  ⟨6, by decide, rfl⟩

lemma capacity_256 : ∃ k < 64, 256 = 2 ^ k :=
  ⟨8, by decide, rfl⟩

lemma capacity_1024 : ∃ k < 64, 1024 = 2 ^ k :=
  ⟨10, by decide, rfl⟩

lemma capacity_4096 : ∃ k < 64, 4096 = 2 ^ k :=
  ⟨12, by decide, rfl⟩

/-- The number of elements in the queue. -/
def size (q : SPSCQueue α N) : ℕ :=
  (q.tail - q.head).toNat

/-- One more element fits when the queue is not full. -/
private lemma size_push_le {q : SPSCQueue α N} (h : (q.tail - q.head).toNat ≠ N) :
    (q.tail + 1 - q.head).toNat ≤ N := by
  obtain ⟨k, hk, hN⟩ := q.pow_two
  have hlt : N < 2 ^ 64 := hN ▸ Nat.pow_lt_pow_right (by decide) hk
  have hsize := q.size_le
  bv_omega

/-- A queue that is not empty is smaller by one after its head moved on. -/
private lemma size_pop {q : SPSCQueue α N} (h : q.tail ≠ q.head) :
    (q.tail - (q.head + 1)).toNat + 1 = (q.tail - q.head).toNat := by
  bv_omega

/-- `push`: refused when the queue is full. -/
def push (q : SPSCQueue α N) (val : α) : SPSCQueue α N × Bool :=
  if h : (q.tail - q.head).toNat = N then (q, false)
  else
    ({ q with
        tail := q.tail + 1
        buffer := Function.update q.buffer (slot N q.tail) val
        size_le := size_push_le h }, true)

/-- `pop`: the oldest element, or `none` when the queue is empty. -/
def pop (q : SPSCQueue α N) : Option α × SPSCQueue α N :=
  if h : q.tail = q.head then (none, q)
  else
    (some (q.buffer (slot N q.head)),
      { q with
        head := q.head + 1
        size_le := by have := size_pop h; have := q.size_le; omega })

/-! ## The queue as a list -/

/-- The elements of the queue, oldest first. -/
def contents (q : SPSCQueue α N) : List α :=
  (List.range q.size).map fun i => q.buffer (slot N (q.head + BitVec.ofNat 64 i))

@[simp] lemma length_contents (q : SPSCQueue α N) : q.contents.length = q.size := by
  simp [contents]

lemma size_le_capacity (q : SPSCQueue α N) : q.size ≤ N :=
  q.size_le

@[simp] lemma contents_empty (uninit : ℕ → α) (h : ∃ k < 64, N = 2 ^ k) :
    (empty uninit h).contents = [] := by
  simp [contents, size, empty]

/-- Masking by `N - 1` is reduction modulo the power of two `N`. -/
private lemma slot_eq_mod (q : SPSCQueue α N) (index : BitVec 64) :
    slot N index = index.toNat % N := by
  obtain ⟨k, -, rfl⟩ := q.pow_two
  exact Nat.and_two_pow_sub_one_eq_mod _ k

/-- The slots of the elements held are different from the slot the next push writes. -/
private lemma slot_ne_slot_tail {q : SPSCQueue α N} (hfull : q.size ≠ N) {i : ℕ} (hi : i < q.size) :
    slot N (q.head + BitVec.ofNat 64 i) ≠ slot N q.tail := by
  rw [slot_eq_mod q, slot_eq_mod q]
  obtain ⟨k, hk, hN⟩ := q.pow_two
  have hdvd : N ∣ 2 ^ 64 := hN ▸ pow_dvd_pow 2 hk.le
  have hlt : q.size < N := lt_of_le_of_ne q.size_le hfull
  have htail : q.tail.toNat = (q.head.toNat + q.size) % 2 ^ 64 := by
    have := q.tail.isLt
    have := q.head.isLt
    rw [size, BitVec.toNat_sub]
    omega
  rw [htail, BitVec.toNat_add, BitVec.toNat_ofNat, Nat.add_mod_mod, Nat.mod_mod_of_dvd _ hdvd,
    Nat.mod_mod_of_dvd _ hdvd]
  exact RingIndex.mod_ne_mod (by omega) (by omega)

/-- A push appends its value when the queue is not full and refuses it otherwise: the ring buffer
refines the abstract bounded queue. -/
theorem push_refines (q : SPSCQueue α N) (val : α) :
    ((q.push val).1.contents, (q.push val).2) = BoundedFifo.push N q.contents val := by
  by_cases hfull : q.size = N
  · have hpush : q.push val = (q, false) := dif_pos hfull
    rw [hpush, BoundedFifo.push_of_length_eq (by rw [length_contents, hfull])]
  · have hpush : q.push val = ({ q with
        tail := q.tail + 1
        buffer := Function.update q.buffer (slot N q.tail) val
        size_le := size_push_le hfull }, true) := dif_neg hfull
    rw [hpush, BoundedFifo.push_of_length_ne (by rwa [length_contents])]
    have hsize : (q.tail + 1 - q.head).toNat = q.size + 1 := by
      obtain ⟨k, hk, hN⟩ := q.pow_two
      have hlt : N < 2 ^ 64 := hN ▸ Nat.pow_lt_pow_right (by decide) hk
      have hle := q.size_le
      have hne : (q.tail - q.head).toNat ≠ N := hfull
      unfold size
      bv_omega
    have htail : q.head + BitVec.ofNat 64 q.size = q.tail := by
      unfold size
      bv_omega
    simp only [contents, size] at *
    rw [hsize, List.range_succ, List.map_append, List.map_singleton, htail, Function.update_self]
    congr 2
    apply List.map_congr_left
    intro i hi
    rw [Function.update_of_ne (slot_ne_slot_tail hfull (List.mem_range.mp hi))]

/-- A pop returns the oldest element and leaves the others. -/
theorem pop_refines (q : SPSCQueue α N) :
    (q.pop.1, q.pop.2.contents) = BoundedFifo.pop q.contents := by
  by_cases h : q.tail = q.head
  · have hpop : q.pop = (none, q) := dif_pos h
    have hnil : q.contents = [] := by simp [contents, size, h]
    rw [hpop, hnil, BoundedFifo.pop_nil]
  · have hsize := size_pop h
    have hcons : q.contents = q.buffer (slot N q.head) :: q.pop.2.contents := by
      have hpop : q.pop.2 = { q with
          head := q.head + 1
          size_le := by have := q.size_le; omega } := by
        simp [pop, h]
      rw [hpop]
      simp only [contents, size]
      rw [← hsize, List.range_succ_eq_map, List.map_cons, List.map_map]
      congr 1
      · simp
      · apply List.map_congr_left
        intro i _
        have : q.head + BitVec.ofNat 64 (i + 1) = q.head + 1 + BitVec.ofNat 64 i := by bv_omega
        simp [this]
    have hfst : q.pop.1 = some (q.buffer (slot N q.head)) := by simp [pop, h]
    rw [hfst, hcons, BoundedFifo.pop_cons]

@[simp] lemma contents_push (q : SPSCQueue α N) (val : α) :
    (q.push val).1.contents = (BoundedFifo.push N q.contents val).1 :=
  congrArg Prod.fst (push_refines q val)

/-- Nothing is cut off of the contents. -/
@[simp] lemma take_contents (q : SPSCQueue α N) : q.contents.take N = q.contents := by
  refine List.take_of_length_le ?_
  rw [length_contents]
  exact q.size_le_capacity

/-- A push as an append of which the end is cut off. -/
lemma contents_push_eq_take (q : SPSCQueue α N) (val : α) :
    (q.push val).1.contents = (q.contents ++ [val]).take N := by
  rw [contents_push, BoundedFifo.push_fst]
  rw [length_contents]
  exact q.size_le_capacity

/-- A push is accepted when there is room. -/
lemma push_snd (q : SPSCQueue α N) (val : α) : (q.push val).2 = decide (q.size < N) := by
  have hrefines := congrArg Prod.snd (push_refines q val)
  have hle := q.size_le_capacity
  by_cases hfull : q.size = N
  · rw [BoundedFifo.push_of_length_eq (by rw [length_contents, hfull])] at hrefines
    simpa [hfull] using hrefines
  · rw [BoundedFifo.push_of_length_ne (by rwa [length_contents])] at hrefines
    rw [decide_eq_true (lt_of_le_of_ne hle hfull)]
    exact hrefines

/-- A push that finds room. -/
lemma push_of_size_lt {q : SPSCQueue α N} (h : q.size < N) (val : α) :
    (q.push val).2 = true ∧ (q.push val).1.contents = q.contents ++ [val] := by
  refine ⟨(push_snd q val).trans (decide_eq_true h), ?_⟩
  rw [contents_push_eq_take, List.take_of_length_le]
  rw [List.length_append, length_contents, List.length_singleton]
  exact h

/-- A push that finds the queue full. -/
lemma push_of_not_size_lt {q : SPSCQueue α N} (h : ¬q.size < N) (val : α) :
    (q.push val).2 = false ∧ (q.push val).1.contents = q.contents := by
  refine ⟨(push_snd q val).trans (decide_eq_false h), ?_⟩
  rw [contents_push_eq_take, List.take_append_of_le_length, take_contents]
  rw [length_contents]
  exact not_lt.mp h

lemma size_push (q : SPSCQueue α N) (val : α) : (q.push val).1.size = min (q.size + 1) N := by
  rw [← length_contents, contents_push, BoundedFifo.length_push, length_contents]
  rw [length_contents]
  exact q.size_le_capacity

/-- A push that leaves room in the queue was accepted. -/
lemma push_of_room {q : SPSCQueue α N} {val : α} (h : (q.push val).1.size < N) :
    (q.push val).1.contents = q.contents ++ [val] ∧ (q.push val).2 = true ∧ q.size < N := by
  have hrefines := push_refines q val
  have hne : q.contents.length ≠ N := by
    intro hfull
    rw [BoundedFifo.push_of_length_eq hfull, Prod.mk.injEq] at hrefines
    rw [← length_contents, hrefines.1, hfull] at h
    exact lt_irrefl N h
  rw [BoundedFifo.push_of_length_ne hne, Prod.mk.injEq] at hrefines
  refine ⟨hrefines.1, hrefines.2, lt_of_le_of_ne q.size_le_capacity ?_⟩
  rwa [length_contents] at hne

@[simp] lemma contents_pop (q : SPSCQueue α N) : q.pop.2.contents = q.contents.tail :=
  congrArg Prod.snd (pop_refines q)

/-- Some pops leave the elements after theirs. -/
lemma size_iterate_pop (q : SPSCQueue α N) (pops : ℕ) :
    ((fun q : SPSCQueue α N => q.pop.2)^[pops] q).size = q.size - pops := by
  induction pops generalizing q with
  | zero => rfl
  | succ pops ih =>
    rw [Function.iterate_succ_apply, ih, ← length_contents, contents_pop, List.length_tail,
      length_contents]
    omega

@[simp] lemma pop_fst (q : SPSCQueue α N) : q.pop.1 = q.contents.head? :=
  congrArg Prod.fst (pop_refines q)

end SPSCQueue

end QuantTrade
