import Mathlib.Data.List.Basic

/-!
# Programs of atomic accesses

A program over a memory `σ` performs one access at a time: an access changes the memory and hands
the memory it found to what follows.  `exec` runs a program from its first access to its last with
nothing in between.
-/

universe u v

/-- A program over the memory `σ` that returns a value of type `ρ`. -/
inductive AtomicProgram (σ : Type u) (ρ : Type v) where
  | ret (r : ρ)
  | access (change : σ → σ) (next : σ → AtomicProgram σ ρ)

namespace AtomicProgram

variable {σ : Type u} {α β ρ : Type v}

/-- One program after the other. -/
def bind : AtomicProgram σ α → (α → AtomicProgram σ β) → AtomicProgram σ β
  | ret a, f => f a
  | access change next, f => access change fun s => (next s).bind f

instance : Monad (AtomicProgram σ) where
  pure := ret
  bind := bind

/-- Reads from the memory. -/
def read (f : σ → α) : AtomicProgram σ α :=
  access id fun s => ret (f s)

/-- Writes to the memory. -/
def write (change : σ → σ) : AtomicProgram σ PUnit :=
  access change fun _ => ret ⟨⟩

/-- The memory after all accesses of the program, and the value it returns. -/
def exec : AtomicProgram σ ρ → σ → σ × ρ
  | ret r, s => (s, r)
  | access change next, s => (next s).exec (change s)

@[simp] lemma exec_pure (a : α) (s : σ) : (pure a : AtomicProgram σ α).exec s = (s, a) := rfl

@[simp] lemma exec_read (f : σ → α) (s : σ) : (read f).exec s = (s, f s) := rfl

@[simp] lemma exec_write (change : σ → σ) (s : σ) : (write change).exec s = (change s, ⟨⟩) := rfl

/-- One program after the other runs from where the first one ends. -/
@[simp] lemma exec_bind (p : AtomicProgram σ α) (f : α → AtomicProgram σ β) (s : σ) :
    (p >>= f).exec s = (f (p.exec s).2).exec (p.exec s).1 := by
  induction p generalizing s with
  | ret a => rfl
  | access change next ih => exact ih s (change s)

/-- A loop runs its body once for each element. -/
lemma exec_forM {ε : Type*} (f : ε → AtomicProgram σ PUnit) (es : List ε) (s : σ) :
    (forM es f : AtomicProgram σ PUnit).exec s =
      (es.foldl (fun s e => ((f e).exec s).1) s, ⟨⟩) := by
  induction es generalizing s with
  | nil => rfl
  | cons e es ih => rw [List.forM_cons, exec_bind, ih, List.foldl_cons]

/-- A loop that carries a value along runs its body once for each element. -/
lemma exec_foldlM {ε : Type*} (f : α → ε → AtomicProgram σ α) (es : List ε) (a : α) (s : σ) :
    (es.foldlM f a).exec s =
      es.foldl (fun p e => (f p.2 e).exec p.1) (s, a) := by
  induction es generalizing a s with
  | nil => rfl
  | cons e es ih => rw [List.foldlM_cons, exec_bind, ih, List.foldl_cons]

end AtomicProgram
