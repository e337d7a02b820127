import Mathlib.Logic.Function.Basic
import Mathlib.Data.List.Nodup
import Mathlib.Tactic.Common
import QuantTrade.Library.Transition

/-!
# The fixed-size object pool

`MemoryPool` of `src/infra/memory_pool.hpp`.  A slot is either free, and then its leading bytes are
the link of an intrusive free list, or it holds an object that its holder wrote over these bytes
(`Cell`).  A pointer is the number of its slot, and `none` is `nullptr`.

The free list of a pool in which the slots `held` are handed out is sound (`Sound`) when it visits
every slot that is not held, once each, and nothing else.  `acquire` and `release` keep it so, and
so does a holder that writes its own slot; hence it stays so in any use of the pool
(`pool_sound`).
-/

namespace QuantTrade

/-- The bytes of a slot: the node of the free list, or an object. -/
inductive Cell (T : Type) where
  | node (next : Option ℕ)
  | object (val : T)

namespace Cell

variable {T : Type}

/-- The slot read as a free-list node.  `leading` reads the leading bytes of an object as a
pointer. -/
def next (leading : T → Option ℕ) : Cell T → Option ℕ
  | node next => next
  | object val => leading val

/-- The slot read as an object. -/
def val? : Cell T → Option T
  | node _ => none
  | object val => some val

@[simp] lemma val?_object (val : T) : (object val).val? = some val := rfl

@[simp] lemma val?_node (next : Option ℕ) : (node next : Cell T).val? = none := rfl

end Cell

/-- A pool of slots with the free list that runs through them. -/
structure MemoryPool (T : Type) where
  storage : ℕ → Cell T
  freeHead : Option ℕ
  available : ℕ

namespace MemoryPool

variable {T : Type}

/-- The constructor links all `n` slots in order. -/
def init (n : ℕ) : MemoryPool T where
  storage i := if i + 1 < n then .node (some (i + 1)) else .node none
  freeHead := some 0
  available := n

/-- `acquire`: unlink the first free slot; `none` when the pool is exhausted. -/
def acquire (leading : T → Option ℕ) (p : MemoryPool T) : Option ℕ × MemoryPool T :=
  match p.freeHead with
  | none => (none, p)
  | some node =>
    (some node, { p with
      freeHead := (p.storage node).next leading
      available := p.available - 1 })

/-- `release`: link the slot in front of the free list. -/
def release (p : MemoryPool T) (ptr : ℕ) : MemoryPool T where
  storage := Function.update p.storage ptr (.node p.freeHead)
  freeHead := some ptr
  available := p.available + 1

/-- The holder of a slot writes an object into it. -/
def write (p : MemoryPool T) (ptr : ℕ) (val : T) : MemoryPool T :=
  { p with storage := Function.update p.storage ptr (.object val) }

/-- The object behind a pointer. -/
def deref (p : MemoryPool T) (ptr : ℕ) : Option T :=
  (p.storage ptr).val?

@[simp] lemma deref_write_self (p : MemoryPool T) (ptr : ℕ) (val : T) :
    (p.write ptr val).deref ptr = some val := by
  simp [deref, write]

lemma deref_write_of_ne (p : MemoryPool T) {ptr ptr' : ℕ} (h : ptr' ≠ ptr) (val : T) :
    (p.write ptr val).deref ptr' = p.deref ptr' := by
  simp [deref, write, h]

lemma deref_release_of_ne (p : MemoryPool T) {ptr ptr' : ℕ} (h : ptr' ≠ ptr) :
    (p.release ptr).deref ptr' = p.deref ptr' := by
  simp [deref, release, h]

@[simp] lemma available_write (p : MemoryPool T) (ptr : ℕ) (val : T) :
    (p.write ptr val).available = p.available := rfl

@[simp] lemma available_release (p : MemoryPool T) (ptr : ℕ) :
    (p.release ptr).available = p.available + 1 := rfl

/-! ## The free list -/

/-- The links in `storage` lead from `head` through exactly the slots of the list. -/
def FreeList (storage : ℕ → Cell T) : Option ℕ → List ℕ → Prop
  | head, [] => head = none
  | head, i :: is => head = some i ∧ ∃ next, storage i = .node next ∧ FreeList storage next is

/-- The free list visits exactly the slots below `n` that are not held, once each. -/
def Sound (n : ℕ) (held : ℕ → Prop) (p : MemoryPool T) : Prop :=
  ∃ free : List ℕ, FreeList p.storage p.freeHead free ∧ free.Nodup ∧
    free.length = p.available ∧ ∀ i, i ∈ free ↔ i < n ∧ ¬held i

/-- A write to a slot outside the free list does not disturb it. -/
lemma freeList_update {storage : ℕ → Cell T} {i : ℕ} {c : Cell T} {head : Option ℕ}
    {free : List ℕ} (hi : i ∉ free) (h : FreeList storage head free) :
    FreeList (Function.update storage i c) head free := by
  induction free generalizing head with
  | nil => exact h
  | cons j js ih =>
    obtain ⟨hhead, next, hj, hjs⟩ := h
    rw [List.mem_cons, not_or] at hi
    refine ⟨hhead, next, ?_, ih hi.2 hjs⟩
    rw [Function.update_of_ne (Ne.symm hi.1), hj]

/-- The slots from `i` to the end are linked in order after construction. -/
private lemma freeList_init (n : ℕ) (k i : ℕ) (h : i + k + 1 = n) :
    FreeList (init n : MemoryPool T).storage (some i) (List.range' i (k + 1)) := by
  induction k generalizing i with
  | zero =>
    refine ⟨rfl, none, ?_, rfl⟩
    have : ¬i + 1 < n := by omega
    simp [init, this]
  | succ k ih =>
    refine ⟨rfl, some (i + 1), ?_, ih (i + 1) (by omega)⟩
    have : i + 1 < n := by omega
    simp [init, this]

/-- All slots of a new pool are free. -/
theorem sound_init {n : ℕ} (hn : 0 < n) : (init n : MemoryPool T).Sound n fun _ => False := by
  refine ⟨List.range' 0 n, ?_, List.nodup_range', by simp [init], fun i => by simp⟩
  obtain ⟨k, rfl⟩ : ∃ k, n = k + 1 := ⟨n - 1, by omega⟩
  exact freeList_init (k + 1) k 0 (by omega)

/-- `acquire` fails exactly when no slot is available. -/
theorem acquire_eq_none_iff {n : ℕ} {held : ℕ → Prop} {p : MemoryPool T} (h : p.Sound n held)
    (leading : T → Option ℕ) : (p.acquire leading).1 = none ↔ p.available = 0 := by
  obtain ⟨free, hfree, -, hlen, -⟩ := h
  cases free with
  | nil =>
    have hhead : p.freeHead = none := hfree
    simp [acquire, hhead, ← hlen]
  | cons i is =>
    have hhead : p.freeHead = some i := hfree.1
    simp [acquire, hhead, ← hlen]

/-- A failed `acquire` changes nothing. -/
lemma acquire_of_none {p : MemoryPool T} {leading : T → Option ℕ}
    (h : (p.acquire leading).1 = none) : (p.acquire leading).2 = p := by
  unfold acquire at *
  split at h
  · rfl
  · simp at h

/-- `acquire` hands out a slot that was not held, and the rest of the free list stays sound. -/
theorem sound_acquire {n : ℕ} {held : ℕ → Prop} {p : MemoryPool T} (h : p.Sound n held)
    {leading : T → Option ℕ} {i : ℕ} (hi : (p.acquire leading).1 = some i) :
    i < n ∧ ¬held i ∧ (p.acquire leading).2.Sound n (fun j => held j ∨ j = i) ∧
      (p.acquire leading).2.storage = p.storage ∧
      (p.acquire leading).2.available + 1 = p.available := by
  obtain ⟨free, hfree, hnodup, hlen, hmem⟩ := h
  cases free with
  | nil =>
    have hhead : p.freeHead = none := hfree
    simp [acquire, hhead] at hi
  | cons j js =>
    obtain ⟨hhead, next, hnext, hjs⟩ := hfree
    have hacq : p.acquire leading = (some j, { p with
        freeHead := (p.storage j).next leading
        available := p.available - 1 }) := by
      simp [acquire, hhead]
    rw [hacq] at hi ⊢
    obtain rfl : j = i := Option.some.inj hi
    rw [List.nodup_cons] at hnodup
    have hj := (hmem j).mp List.mem_cons_self
    have hpos : p.available = js.length + 1 := by rw [← hlen, List.length_cons]
    refine ⟨hj.1, hj.2, ⟨js, ?_, hnodup.2, ?_, ?_⟩, rfl, ?_⟩
    · simpa [hnext, Cell.next] using hjs
    · simp [hpos]
    · intro i
      have hi := hmem i
      rw [List.mem_cons] at hi
      constructor
      · intro his
        have hne : i ≠ j := fun heq => hnodup.1 (heq ▸ his)
        have := hi.mp (Or.inr his)
        exact ⟨this.1, fun hor => hor.elim this.2 hne⟩
      · rintro ⟨hlt, hnot⟩
        rw [not_or] at hnot
        exact (hi.mpr ⟨hlt, hnot.1⟩).resolve_left hnot.2
    · simp [hpos]

/-- The holder of a slot may write it freely. -/
theorem sound_write {n : ℕ} {held : ℕ → Prop} {p : MemoryPool T} (h : p.Sound n held) {i : ℕ}
    (hi : held i) (val : T) : (p.write i val).Sound n held := by
  obtain ⟨free, hfree, hnodup, hlen, hmem⟩ := h
  exact ⟨free, freeList_update (fun hin => ((hmem i).mp hin).2 hi) hfree, hnodup, hlen, hmem⟩

/-- `release` returns a held slot to the free list. -/
theorem sound_release {n : ℕ} {held : ℕ → Prop} {p : MemoryPool T} (h : p.Sound n held) {i : ℕ}
    (hi : held i) (hlt : i < n) : (p.release i).Sound n fun j => held j ∧ j ≠ i := by
  obtain ⟨free, hfree, hnodup, hlen, hmem⟩ := h
  have hnot : i ∉ free := fun hin => ((hmem i).mp hin).2 hi
  refine ⟨i :: free, ⟨rfl, p.freeHead, ?_, freeList_update hnot hfree⟩,
    List.nodup_cons.mpr ⟨hnot, hnodup⟩, by simp [hlen], ?_⟩
  · simp [release]
  · intro j
    rw [List.mem_cons, hmem j]
    constructor
    · rintro (rfl | ⟨hj, hjn⟩)
      · exact ⟨hlt, fun hand => hand.2 rfl⟩
      · exact ⟨hj, fun hand => hjn hand.1⟩
    · rintro ⟨hj, hjn⟩
      by_cases heq : j = i
      · exact Or.inl heq
      · exact Or.inr ⟨hj, fun hheld => hjn ⟨hheld, heq⟩⟩

/-- Soundness only depends on which slots are held. -/
lemma Sound.congr {n : ℕ} {held held' : ℕ → Prop} {p : MemoryPool T} (h : p.Sound n held)
    (heq : ∀ i, held i ↔ held' i) : p.Sound n held' := by
  obtain ⟨free, hfree, hnodup, hlen, hmem⟩ := h
  exact ⟨free, hfree, hnodup, hlen, fun i => by rw [hmem i, heq i]⟩

/-- No slot is available exactly when all of them are held. -/
lemma available_eq_zero_iff {n : ℕ} {held : ℕ → Prop} {p : MemoryPool T} (h : p.Sound n held) :
    p.available = 0 ↔ ∀ i < n, held i := by
  obtain ⟨free, -, -, hlen, hmem⟩ := h
  rw [← hlen, List.length_eq_zero_iff, List.eq_nil_iff_forall_not_mem]
  refine forall_congr' fun i => ?_
  rw [hmem i, not_and, not_not]

/-! ## The pool in use -/

/-- A pool, and the slots that its users hold. -/
structure Usage (T : Type) where
  pool : MemoryPool T
  held : List ℕ

/-- What the users do: they take a slot, give one back, or write an object into one. -/
inductive UserCall (T : Type) where
  | acquire
  | release (ptr : ℕ)
  | write (ptr : ℕ) (val : T)

namespace Usage

/-- A new pool, of which nothing is held. -/
def start (n : ℕ) : Usage T where
  pool := init n
  held := []

/-- One call.  The slot that `acquire` returns is held until it is released. -/
def step (leading : T → Option ℕ) (u : Usage T) : UserCall T → Usage T
  | .acquire =>
    { pool := (u.pool.acquire leading).2
      held := (u.pool.acquire leading).1.toList ++ u.held }
  | .release ptr => { pool := u.pool.release ptr, held := u.held.erase ptr }
  | .write ptr val => { u with pool := u.pool.write ptr val }

/-- What the users promise: they release and write only what they hold. -/
def Allowed (u : Usage T) : UserCall T → Prop
  | .acquire => True
  | .release ptr => ptr ∈ u.held
  | .write ptr _ => ptr ∈ u.held

instance (u : Usage T) (c : UserCall T) : Decidable (u.Allowed c) := by
  unfold Allowed
  cases c <;> infer_instance

/-- The free list is sound, and the slots that are held are different slots of the pool. -/
structure Valid (n : ℕ) (u : Usage T) : Prop where
  sound : u.pool.Sound n (· ∈ u.held)
  nodup : u.held.Nodup
  lt : ∀ i ∈ u.held, i < n

lemma valid_start {n : ℕ} (hn : 0 < n) : (start n : Usage T).Valid n where
  sound := (sound_init hn).congr fun _ => iff_of_false id List.not_mem_nil
  nodup := List.nodup_nil
  lt _ h := absurd h List.not_mem_nil

/-- Every call that the users may make keeps the pool valid. -/
lemma Valid.step {n : ℕ} {leading : T → Option ℕ} {u : Usage T} (h : u.Valid n)
    {c : UserCall T} (hc : u.Allowed c) : (u.step leading c).Valid n := by
  cases c with
  | acquire =>
    cases hacq : (u.pool.acquire leading).1 with
    | none =>
      have hsame : u.step leading .acquire = u := by
        simp only [Usage.step, acquire_of_none hacq, hacq, Option.toList_none, List.nil_append]
      rw [hsame]
      exact h
    | some i =>
      obtain ⟨hlt, hnot, hsound, -, -⟩ := sound_acquire h.sound hacq
      simp only [Usage.step, hacq, Option.toList_some, List.singleton_append]
      refine ⟨hsound.congr fun j => ?_, List.nodup_cons.mpr ⟨hnot, h.nodup⟩, ?_⟩
      · rw [List.mem_cons, or_comm]
      · exact List.forall_mem_cons.mpr ⟨hlt, h.lt⟩
  | release ptr =>
    refine ⟨(sound_release h.sound hc (h.lt ptr hc)).congr fun j => ?_, h.nodup.erase ptr, ?_⟩
    · exact (h.nodup.mem_erase_iff.trans and_comm).symm
    · exact fun i hi => h.lt i (List.mem_of_mem_erase hi)
  | write ptr val => exact ⟨sound_write h.sound hc val, h.nodup, h.lt⟩

/-- **The pool is sound.**  In any use of a pool in which only held slots are released and written,
the free list visits exactly the slots that are not held, once each, and there are as many as are
available; `acquire` returns a slot that is not held, and fails exactly when all slots are held; and
the slots that are held are different. -/
theorem pool_sound (n : ℕ) (hn : 1 ≤ n) (leading : T → Option ℕ) (calls : List (UserCall T))
    (hcalls : Transition.Admissible (Usage.step leading) Allowed (start n) calls) :
    let u := Transition.run (Usage.step leading) (start n) calls
    u.pool.Sound n (· ∈ u.held) ∧
    (∀ i, (u.pool.acquire leading).1 = some i → i < n ∧ i ∉ u.held) ∧
    ((u.pool.acquire leading).1 = none ↔ ∀ i < n, i ∈ u.held) ∧
    u.held.Nodup ∧ ∀ i ∈ u.held, i < n := by
  intro u
  have hvalid : u.Valid n :=
    Transition.invariant_run (fun _ _ hc h => h.step hc) hcalls (valid_start hn)
  refine ⟨hvalid.sound, fun i hi => ?_, ?_, hvalid.nodup, hvalid.lt⟩
  · obtain ⟨hlt, hnot, -⟩ := sound_acquire hvalid.sound hi
    exact ⟨hlt, hnot⟩
  · rw [acquire_eq_none_iff hvalid.sound leading, available_eq_zero_iff hvalid.sound]

/-- Both slots of a pool are taken and written with what reads as a link to the first; the first is
given back and taken again. -/
def reuse : List (UserCall ℕ) :=
  [.acquire, .acquire, .write 0 0, .write 1 0, .release 0, .acquire]

theorem pool_sound_reuse :
    ((Transition.run (Usage.step some) (start 2) reuse).pool.acquire some).1 = none ↔
      ∀ i < 2, i ∈ (Transition.run (Usage.step some) (start 2) reuse).held :=
  (pool_sound 2 (by decide) some reuse (by decide)).2.2.1

end Usage

end MemoryPool

end QuantTrade
