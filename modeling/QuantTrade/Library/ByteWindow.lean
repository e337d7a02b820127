import Mathlib.Data.List.Range
import Mathlib.Tactic.Common

/-!
# Bytes in memory

A memory is a function from indices to bytes, and a window is what it holds from an index on.
`Holds` says that some bytes stand at an index; it splits along an append (`holds_append`).  A
`guarded` memory can only be read inside of one window; a function that succeeds on it reads nothing
else.
-/

namespace ByteWindow

variable {α : Type*} {mem : ℕ → α} {first : ℕ}

/-- The `n` bytes from an index on. -/
def window (mem : ℕ → α) (first n : ℕ) : List α :=
  (List.range' first n).map mem

/-- The bytes stand at the index. -/
def Holds (mem : ℕ → α) (first : ℕ) (bytes : List α) : Prop :=
  window mem first bytes.length = bytes

@[simp] lemma length_window (mem : ℕ → α) (first n : ℕ) : (window mem first n).length = n := by
  rw [window, List.length_map, List.length_range']

lemma window_append (mem : ℕ → α) (first m n : ℕ) :
    window mem first (m + n) = window mem first m ++ window mem (first + m) n := by
  rw [window, window, window, ← List.map_append, List.range'_append_1]

@[simp] lemma holds_nil (mem : ℕ → α) (first : ℕ) : Holds mem first [] := rfl

/-- Bytes one after the other stand at an index when each part does. -/
lemma holds_append {bytes bytes' : List α} :
    Holds mem first (bytes ++ bytes') ↔
      Holds mem first bytes ∧ Holds mem (first + bytes.length) bytes' := by
  unfold Holds
  rw [List.length_append, window_append]
  constructor
  · intro h
    exact List.append_inj h (length_window ..)
  · rintro ⟨hfirst, hsecond⟩
    rw [hfirst, hsecond]

/-- A byte is what stands at its place. -/
lemma Holds.apply_eq {bytes : List α} {i : ℕ} {b : α} (h : Holds mem first bytes)
    (hb : bytes[i]? = some b) : mem (first + i) = b := by
  rw [← h] at hb
  obtain ⟨hi, hb⟩ := List.getElem?_eq_some_iff.mp hb
  rw [← hb]
  simp [window]

/-- What stands somewhere in the bytes. -/
lemma Holds.window_eq {bytes : List α} {i n : ℕ} (h : Holds mem first bytes)
    (hle : i + n ≤ bytes.length) : window mem (first + i) n = (bytes.drop i).take n := by
  rw [← List.take_append_drop i bytes, ← List.take_append_drop n (bytes.drop i), holds_append,
    holds_append] at h
  have hmiddle := h.2.1
  rw [Holds, List.length_take_of_le (by omega), List.length_take_of_le (by
    rw [List.length_drop]
    omega)] at hmiddle
  exact hmiddle

/-! ## Reads that may fail -/

/-- A memory of which only the `n` bytes from an index on may be read. -/
def guarded (mem : ℕ → α) (first n : ℕ) (i : ℕ) : Option α :=
  if first ≤ i ∧ i < first + n then some (mem i) else none

/-- The `n` bytes from an index on, when all of them may be read. -/
def window? (mem : ℕ → Option α) (first n : ℕ) : Option (List α) :=
  (List.range' first n).mapM mem

lemma guarded_of_inside {n i : ℕ} (hfirst : first ≤ i) (hlast : i < first + n) :
    guarded mem first n i = some (mem i) :=
  if_pos ⟨hfirst, hlast⟩

/-- A window inside the guarded part can be read. -/
lemma window?_guarded {n i k : ℕ} (hfirst : first ≤ i) (hlast : i + k ≤ first + n) :
    window? (guarded mem first n) i k = some (window mem i k) := by
  unfold window? window
  induction k generalizing i with
  | zero => rfl
  | succ k ih =>
    rw [List.range'_succ, List.mapM_cons, guarded_of_inside hfirst (by omega),
      ih (by omega) (by omega), List.map_cons]
    rfl

/-- Every list of bytes stands in some memory. -/
lemma holds_getD (bytes : List α) (a : α) : Holds (fun i => bytes.getD i a) 0 bytes := by
  unfold Holds window
  apply List.ext_getElem
  · simp
  · intro i hi _
    simp at hi
    simp [hi]

end ByteWindow
