import Mathlib.Data.List.Basic
import QuantTrade.Library.Interleaving
import QuantTrade.Library.RingIndex

/-!
# The multi-producer queue

`MPSCQueue` of `src/infra/mpsc_queue.hpp`, one load, compare-exchange, store or access to the data
of a slot at a time, in any number of producers and one consumer.  Producers claim positions on
`tail_` with a compare-exchange; the sequence number of a slot says whether it is free for a
position, or published.

For `N` at least two these states are told apart and the queue loses and duplicates nothing
(`lossless_run`).  For `N = 1`, which the `static_assert` admits, a published slot looks like one
that is free for the next position, and a value is overwritten (`not_lossless_oneSlot`).
-/

namespace QuantTrade

namespace MPSCQueue

variable {ι α : Type}

/-- A position claimed on `tail_`: the producer, the value it pushes and the slot. -/
structure Claim (ι α : Type) where
  producer : ι
  value : α
  slot : ℕ
  deriving DecidableEq

/-- What a call of `push` returned. -/
structure Return (ι α : Type) where
  producer : ι
  value : α
  ok : Bool
  deriving DecidableEq

/-- The members of the queue, with the history: the positions claimed, in order, the values popped
and what the pushes returned. -/
structure Shared (ι α : Type) where
  tail : BitVec 64
  /-- Private to the consumer. -/
  head : BitVec 64
  seq : ℕ → BitVec 64
  data : ℕ → α
  claims : List (Claim ι α)
  popped : List α
  returned : List (Return ι α)

/-- The threads. -/
inductive Thread (ι : Type) where
  | producer (p : ι)
  | consumer
  deriving DecidableEq

/-- Where a thread is, with its local variables: the next operation on the shared state. -/
inductive Pc (α : Type) where
  /-- Not in a call; the next step begins one.  A push loads `tail_`, a pop the number of its
  slot. -/
  | idle
  | loadSeq (val : α) (pos : BitVec 64)
  | casTail (val : α) (pos : BitVec 64)
  | reloadTail (val : α)
  | writeData (val : α) (pos : BitVec 64)
  | storeSeq (val : α) (pos : BitVec 64)
  | readData
  | releaseSlot (val : α)
  deriving DecidableEq

/-- What the code does not determine of a step: the push that a producer begins when it is not in
one, and whether a weak compare-exchange fails for no reason. -/
structure Choice (α : Type) where
  val : Option α
  spurious : Bool

/-- The slot of a position: `pos & MASK`. -/
def slot (N : ℕ) (pos : BitVec 64) : ℕ :=
  pos.toNat &&& (N - 1)

/-- The difference of two positions as signed numbers. -/
def diff (seq pos : BitVec 64) : ℤ :=
  seq.toInt - pos.toInt

section Operations

variable (N : ℕ) (s : Shared ι α)

/-- A push returns `false`. -/
def Shared.refuse (p : ι) (val : α) : Shared ι α :=
  { s with returned := s.returned ++ [⟨p, val, false⟩] }

/-- The compare-exchange of `tail_` that claims a position. -/
def Shared.claim (p : ι) (val : α) (pos : BitVec 64) : Shared ι α :=
  { s with tail := pos + 1, claims := s.claims ++ [⟨p, val, slot N pos⟩] }

/-- `slot->data = val`. -/
def Shared.write (val : α) (pos : BitVec 64) : Shared ι α :=
  { s with data := Function.update s.data (slot N pos) val }

/-- A push publishes its slot and returns `true`. -/
def Shared.publish (p : ι) (val : α) (pos : BitVec 64) : Shared ι α :=
  { s with
    seq := Function.update s.seq (slot N pos) (pos + 1)
    returned := s.returned ++ [⟨p, val, true⟩] }

/-- A pop gives the slot back for the next round and returns the value. -/
def Shared.release (val : α) : Shared ι α :=
  { s with
    seq := Function.update s.seq (slot N s.head) (s.head + BitVec.ofNat 64 N)
    head := s.head + 1
    popped := s.popped ++ [val] }

end Operations

/-- The next operation of `push`. -/
def push (N : ℕ) (p : ι) (s : Shared ι α) (choice : Choice α) : Pc α → Shared ι α × Pc α
  | .idle =>
    match choice.val with
    | none => (s, .idle)
    | some val => (s, .loadSeq val s.tail)
  | .loadSeq val pos =>
    if diff (s.seq (slot N pos)) pos = 0 then (s, .casTail val pos)
    else if diff (s.seq (slot N pos)) pos < 0 then (s.refuse p val, .idle)
    else (s, .reloadTail val)
  | .reloadTail val => (s, .loadSeq val s.tail)
  | .casTail val pos =>
    if s.tail = pos ∧ choice.spurious = false then (s.claim N p val pos, .writeData val pos)
    -- a failed compare-exchange loads the current value
    else (s, .loadSeq val s.tail)
  | .writeData val pos => (s.write N val pos, .storeSeq val pos)
  | .storeSeq val pos => (s.publish N p val pos, .idle)
  | pc => (s, pc)

/-- The next operation of `pop`. -/
def pop (N : ℕ) (s : Shared ι α) : Pc α → Shared ι α × Pc α
  | .idle =>
    if diff (s.seq (slot N s.head)) (s.head + 1) < 0 then (s, .idle) else (s, .readData)
  | .readData => (s, .releaseSlot (s.data (slot N s.head)))
  | .releaseSlot val => (s.release N val, .idle)
  | pc => (s, pc)

/-- One step of a thread. -/
def act (N : ℕ) : Thread ι → Shared ι α → Pc α → Choice α → Shared ι α × Pc α
  | .producer p, s, pc, choice => push N p s choice pc
  | .consumer, s, pc, _ => pop N s pc

/-- A new queue: each slot waits for its first position. -/
def start (init : ℕ → α) : Interleaving.Config (Shared ι α) (Thread ι) (Pc α) where
  shared :=
    { tail := 0
      head := 0
      seq := fun i => BitVec.ofNat 64 i
      data := init
      claims := []
      popped := []
      returned := [] }
  locals := fun _ => .idle

/-- The claims that are not popped. -/
def Shared.unpopped (s : Shared ι α) : List (Claim ι α) :=
  s.claims.drop s.popped.length

/-- The value that a thread has claimed a position for and not yet published. -/
def Pc.inFlight : Pc α → List α
  | .writeData val _ => [val]
  | .storeSeq val _ => [val]
  | _ => []

/-- The values whose push by this producer returned `true`, in order. -/
def Shared.accepted [DecidableEq ι] (s : Shared ι α) (p : ι) : List α :=
  (s.returned.filter fun r => r.producer = p ∧ r.ok = true).map Return.value

/-- The values this producer claimed positions for, in order. -/
def Shared.claimed [DecidableEq ι] (s : Shared ι α) (p : ι) : List α :=
  (s.claims.filter fun e => e.producer = p).map Claim.value

/-- The queue loses and duplicates nothing. -/
structure Lossless [DecidableEq ι] (N : ℕ)
    (c : Interleaving.Config (Shared ι α) (Thread ι) (Pc α)) : Prop where
  /-- The values popped are those of the first positions claimed, in the order of the positions. -/
  fifo : c.shared.popped <+: c.shared.claims.map Claim.value
  /-- The values of a producer are in the order of its pushes: those whose push returned `true`, and
  the one it is pushing. -/
  order : ∀ p, c.shared.claimed p = c.shared.accepted p ++ (c.locals (.producer p)).inFlight
  /-- Of the values claimed and not popped, the slot about to be written belongs only to the one
  that is written. -/
  overwrite : ∀ p val pos, c.locals (.producer p) = .writeData val pos →
    c.shared.unpopped.filter (fun e => e.slot = slot N pos) = [⟨p, val, slot N pos⟩]
  /-- A push that returns `false` finds its slot with an earlier value that is not popped; the value
  is in the slot unless its producer has not published it yet. -/
  full : ∀ p val choice,
    (Interleaving.step (act N) c (.producer p, choice)).shared.returned =
      c.shared.returned ++ [⟨p, val, false⟩] →
    ∃ pos n e, c.locals (.producer p) = .loadSeq val pos ∧ pos = BitVec.ofNat 64 (n + N) ∧
      c.shared.claims[n]? = some e ∧ c.shared.popped.length ≤ n ∧ e.slot = slot N pos ∧
      (c.shared.data e.slot = e.value ∨ c.shared.seq e.slot = BitVec.ofNat 64 n)

/-! ## The invariant -/

/-- The position `n` is published: its slot has the next sequence number and holds its value. -/
def Published (N : ℕ) (s : Shared ι α) (n : ℕ) : Prop :=
  ∃ e, s.claims[n]? = some e ∧ s.seq (n % N) = BitVec.ofNat 64 (n + 1) ∧ s.data (n % N) = e.value

/-- The counters count the positions claimed and the values popped, at most `N` apart, and each of
the `N` positions from the next pop on is free or published. -/
structure SharedInv (N : ℕ) (s : Shared ι α) : Prop where
  tail_eq : s.tail = BitVec.ofNat 64 s.claims.length
  head_eq : s.head = BitVec.ofNat 64 s.popped.length
  popped_eq : s.popped = (s.claims.map Claim.value).take s.popped.length
  popped_le : s.popped.length ≤ s.claims.length
  claims_le : s.claims.length ≤ s.popped.length + N
  /-- The signed differences do not overflow. -/
  room : s.claims.length + N ≤ 2 ^ 63
  slots : ∀ n e, s.claims[n]? = some e → e.slot = n % N
  states : ∀ n, s.popped.length ≤ n ∧ n < s.popped.length + N →
    s.seq (n % N) = BitVec.ofNat 64 n ∨ Published N s n

/-- The producer `p` has claimed the position `n`, which is not published. -/
def Owns (N : ℕ) (p : ι) (val : α) (pos : BitVec 64) (s : Shared ι α) (n : ℕ) : Prop :=
  pos = BitVec.ofNat 64 n ∧ s.claims[n]? = some ⟨p, val, n % N⟩ ∧ s.popped.length ≤ n ∧
    s.seq (n % N) = BitVec.ofNat 64 n

/-- What a producer knows of its position. -/
def PositionInv (N : ℕ) (p : ι) (s : Shared ι α) : Pc α → Prop
  | .idle => True
  | .reloadTail _ => True
  | .loadSeq _ pos => ∃ n ≤ s.claims.length, pos = BitVec.ofNat 64 n
  | .casTail _ pos =>
    ∃ n ≤ s.claims.length, n < s.popped.length + N ∧ pos = BitVec.ofNat 64 n
  | .writeData val pos => ∃ n, Owns N p val pos s n
  | .storeSeq val pos => ∃ n, Owns N p val pos s n ∧ s.data (n % N) = val
  | .readData => False
  | .releaseSlot _ => False

/-- What the consumer knows: past the test the next value is published, and it then holds it. -/
def ConsumerInv (N : ℕ) (s : Shared ι α) : Pc α → Prop
  | .idle => True
  | .readData => Published N s s.popped.length
  | .releaseSlot val =>
    ∃ e, s.claims[s.popped.length]? = some e ∧ e.value = val ∧
      s.seq (s.popped.length % N) = BitVec.ofNat 64 (s.popped.length + 1)
  | _ => False

/-- What a thread knows.  A producer also has returned from the pushes of its claims but the one it
is in. -/
def ThreadInv [DecidableEq ι] (N : ℕ) : Thread ι → Shared ι α → Pc α → Prop
  | .producer p, s, pc => s.claimed p = s.accepted p ++ pc.inFlight ∧ PositionInv N p s pc
  | .consumer, s, pc => ConsumerInv N s pc

lemma sharedInv_start {N : ℕ} (hN : N ≤ 2 ^ 63) (init : ℕ → α) :
    SharedInv N (start init : Interleaving.Config (Shared ι α) (Thread ι) (Pc α)).shared where
  tail_eq := rfl
  head_eq := rfl
  popped_eq := rfl
  popped_le := Nat.zero_le _
  claims_le := Nat.zero_le _
  room := by simpa [start] using hN
  slots n e h := by simp [start] at h
  states n hn := by
    have hlt : n < N := by simpa [start] using hn
    left
    rw [Nat.mod_eq_of_lt hlt]
    rfl

/-- The numbers of a free and of a published slot differ. -/
lemma ofNat_ne_succ (n : ℕ) : BitVec.ofNat 64 n ≠ BitVec.ofNat 64 (n + 1) := by
  intro h
  have heq := RingIndex.eq_of_ofNat_eq (Nat.le_succ n) (by omega) h.symm
  omega

/-- Positions below `2 ^ 63` are not negative as signed numbers. -/
lemma diff_ofNat {a b : ℕ} (ha : a < 2 ^ 63) (hb : b < 2 ^ 63) :
    diff (BitVec.ofNat 64 a) (BitVec.ofNat 64 b) = (a : ℤ) - b := by
  have hsigned : ∀ n < 2 ^ 63, (BitVec.ofNat 64 n).toInt = n := by
    intro n hn
    rw [BitVec.toInt_eq_toNat_of_lt, BitVec.toNat_ofNat, Nat.mod_eq_of_lt (by omega)]
    rw [BitVec.toNat_ofNat, Nat.mod_eq_of_lt (by omega)]
    omega
  rw [diff, hsigned a ha, hsigned b hb]

section Step

variable {N : ℕ} {s : Shared ι α}

lemma slot_ofNat (hN : ∃ k < 64, N = 2 ^ k) (n : ℕ) : slot N (BitVec.ofNat 64 n) = n % N :=
  RingIndex.and_mask_ofNat hN n

/-- What the test of `push` says of the position: when it is free, it is among the `N` positions
from the next pop on, and when the test finds the queue full it is the one behind them. -/
lemma SharedInv.test_push (hN : ∃ k < 64, N = 2 ^ k) (hsize : 2 ≤ N) (h : SharedInv N s) {n : ℕ}
    (hn : n ≤ s.claims.length) :
    let d := diff (s.seq (slot N (BitVec.ofNat 64 n))) (BitVec.ofNat 64 n)
    (d = 0 → n < s.popped.length + N) ∧ (d < 0 → n = s.popped.length + N) := by
  obtain ⟨m, hwin, hmod⟩ := RingIndex.exists_mod_eq (N := N) (by omega) s.popped.length n
  have hroom := h.room
  have hle := h.popped_le
  have hfull := h.claims_le
  rw [slot_ofNat hN, ← hmod]
  -- the position in the window with the same slot is `n`, or at least `N` before it
  have hbefore : m < n → m + N ≤ n := fun hlt =>
    Nat.le_of_not_lt fun hgt => RingIndex.mod_ne_mod hlt hgt hmod
  rcases h.states m hwin with hfree | ⟨e, he, hseq, -⟩
  · rw [hfree, diff_ofNat (by omega) (by omega)]
    constructor
    · intro hd
      omega
    · intro hd
      have hm := hbefore (by omega)
      omega
  · have hclaimed : m < s.claims.length := (List.getElem?_eq_some_iff.mp he).1
    rw [hseq, diff_ofNat (by omega) (by omega)]
    constructor
    · intro hd
      have hm := hbefore (by omega)
      omega
    · intro hd
      have hm := hbefore (by omega)
      omega

/-- What the test of `pop` says: past it the next value is published. -/
lemma SharedInv.test_pop (hN : ∃ k < 64, N = 2 ^ k) (hsize : 2 ≤ N) (h : SharedInv N s)
    (htest : ¬diff (s.seq (slot N s.head)) (s.head + 1) < 0) : Published N s s.popped.length := by
  have hroom := h.room
  have hle := h.popped_le
  have hnext : s.head + 1 = BitVec.ofNat 64 (s.popped.length + 1) := by
    rw [h.head_eq, BitVec.ofNat_add]
    rfl
  rcases h.states s.popped.length ⟨le_rfl, by omega⟩ with hfree | hpub
  · rw [hnext, h.head_eq, slot_ofNat hN, hfree, diff_ofNat (by omega) (by omega)] at htest
    omega
  · exact hpub

/-- The position that a compare-exchange can claim is free. -/
lemma SharedInv.free_tail (h : SharedInv N s) (hlt : s.claims.length < s.popped.length + N) :
    s.seq (s.claims.length % N) = BitVec.ofNat 64 s.claims.length := by
  rcases h.states _ ⟨h.popped_le, hlt⟩ with hfree | ⟨e, he, -, -⟩
  · exact hfree
  · have hself := (List.getElem?_eq_some_iff.mp he).1
    omega

/-- A compare-exchange that succeeds finds the next position. -/
lemma SharedInv.eq_tail (h : SharedInv N s) {n : ℕ} (hn : n ≤ s.claims.length)
    (heq : s.tail = BitVec.ofNat 64 n) : n = s.claims.length := by
  have hroom := h.room
  rw [h.tail_eq] at heq
  exact (RingIndex.eq_of_ofNat_eq hn (by omega) heq).symm

/-- The position of a claim that is not popped is one of the `N` from the next pop on. -/
lemma SharedInv.window (h : SharedInv N s) {n : ℕ} {e : Claim ι α} (hn : s.popped.length ≤ n)
    (he : s.claims[n]? = some e) : s.popped.length ≤ n ∧ n < s.popped.length + N := by
  have hlt := (List.getElem?_eq_some_iff.mp he).1
  have hle := h.claims_le
  omega

/-- A position owned is not published. -/
lemma Owns.not_published {p : ι} {val : α} {pos : BitVec 64} {n m : ℕ}
    (ho : Owns N p val pos s n) (hp : Published N s m) : m ≠ n := by
  rintro rfl
  obtain ⟨e, -, hseq, -⟩ := hp
  exact ofNat_ne_succ m (ho.2.2.2 ▸ hseq)

/-- Two producers own different positions. -/
lemma Owns.ne {p p' : ι} {val val' : α} {pos pos' : BitVec 64} {n n' : ℕ}
    (ho : Owns N p val pos s n) (ho' : Owns N p' val' pos' s n') (hne : p' ≠ p) : n' ≠ n := by
  rintro rfl
  have heq := ho'.2.1.symm.trans ho.2.1
  simp only [Option.some.injEq, Claim.mk.injEq] at heq
  exact hne heq.1

/-! ### What the operations keep -/

/-- A producer keeps its position when the counters do not go back and what it owns is not
touched. -/
lemma PositionInv.frame {p : ι} {s' : Shared ι α} {pc : Pc α} (h : PositionInv N p s pc)
    (hclaims : s.claims.length ≤ s'.claims.length) (hpopped : s.popped.length ≤ s'.popped.length)
    (howns : ∀ val pos n, Owns N p val pos s n →
      Owns N p val pos s' n ∧ s'.data (n % N) = s.data (n % N)) : PositionInv N p s' pc := by
  cases pc with
  | idle => trivial
  | reloadTail val => trivial
  | loadSeq val pos =>
    obtain ⟨n, hn, hpos⟩ := h
    exact ⟨n, hn.trans hclaims, hpos⟩
  | casTail val pos =>
    obtain ⟨n, hn, hwin, hpos⟩ := h
    exact ⟨n, hn.trans hclaims, by omega, hpos⟩
  | writeData val pos =>
    obtain ⟨n, ho⟩ := h
    exact ⟨n, (howns val pos n ho).1⟩
  | storeSeq val pos =>
    obtain ⟨n, ho, hdata⟩ := h
    obtain ⟨ho', hsame⟩ := howns val pos n ho
    exact ⟨n, ho', hsame.trans hdata⟩
  | readData => exact h
  | releaseSlot val => exact h

lemma Published.claim {p : ι} {val : α} {pos : BitVec 64} {n : ℕ} (h : Published N s n) :
    Published N (s.claim N p val pos) n := by
  obtain ⟨e, he, hseq, hdata⟩ := h
  exact ⟨e, RingIndex.getElem?_append_of_eq_some he _, hseq, hdata⟩

lemma Owns.claim {p p' : ι} {val val' : α} {pos pos' : BitVec 64} {n : ℕ}
    (h : Owns N p val pos s n) : Owns N p val pos (s.claim N p' val' pos') n :=
  ⟨h.1, RingIndex.getElem?_append_of_eq_some h.2.1 _, h.2.2⟩

/-- The next position is claimed. -/
lemma SharedInv.claim (hN : ∃ k < 64, N = 2 ^ k) (h : SharedInv N s) {p : ι} {val : α}
    (hlt : s.claims.length < s.popped.length + N) (hroom : s.claims.length + N < 2 ^ 63) :
    SharedInv N (s.claim N p val (BitVec.ofNat 64 s.claims.length)) where
  tail_eq := by simp [Shared.claim, BitVec.ofNat_add]
  head_eq := h.head_eq
  popped_eq := by
    have hle : s.popped.length ≤ (s.claims.map Claim.value).length := by
      simpa using h.popped_le
    simp only [Shared.claim]
    rw [List.map_append, List.take_append_of_le_length hle]
    exact h.popped_eq
  popped_le := by
    simp only [Shared.claim, List.length_append, List.length_singleton]
    exact h.popped_le.trans (Nat.le_succ _)
  claims_le := by
    simp only [Shared.claim, List.length_append, List.length_singleton]
    exact hlt
  room := by
    simp only [Shared.claim, List.length_append, List.length_singleton]
    omega
  slots n e he := by
    rcases RingIndex.getElem?_concat_eq_some he with hold | ⟨rfl, rfl⟩
    · exact h.slots n e hold
    · exact slot_ofNat hN _
  states n hn := (h.states n hn).imp_right Published.claim

/-- The one who claims a position owns it. -/
lemma SharedInv.owns_claim (hN : ∃ k < 64, N = 2 ^ k) (h : SharedInv N s) {p : ι} {val : α}
    (hlt : s.claims.length < s.popped.length + N) :
    Owns N p val (BitVec.ofNat 64 s.claims.length)
      (s.claim N p val (BitVec.ofNat 64 s.claims.length)) s.claims.length := by
  refine ⟨rfl, ?_, h.popped_le, h.free_tail hlt⟩
  simp only [Shared.claim]
  rw [List.getElem?_concat_length, slot_ofNat hN]

section Write

variable {p : ι} {val : α} {pos : BitVec 64} {n : ℕ}

lemma Published.write (hN : ∃ k < 64, N = 2 ^ k) (h : SharedInv N s) (ho : Owns N p val pos s n)
    {m : ℕ} (hm : s.popped.length ≤ m) (hp : Published N s m) :
    Published N (s.write N val pos) m := by
  have hne := ho.not_published hp
  obtain ⟨e, he, hseq, hdata⟩ := hp
  have hslot := RingIndex.mod_ne_mod_of_window (h.window hm he) (h.window ho.2.2.1 ho.2.1) hne
  refine ⟨e, he, hseq, ?_⟩
  simp only [Shared.write]
  rw [ho.1, slot_ofNat hN, Function.update_of_ne hslot]
  exact hdata

/-- The owner of a position writes its slot. -/
lemma SharedInv.write (hN : ∃ k < 64, N = 2 ^ k) (h : SharedInv N s) (ho : Owns N p val pos s n) :
    SharedInv N (s.write N val pos) :=
  { h with states := fun m hm => (h.states m hm).imp_right (Published.write hN h ho hm.1) }

lemma Shared.data_write (hN : ∃ k < 64, N = 2 ^ k) (ho : Owns N p val pos s n) :
    (s.write N val pos).data (n % N) = val := by
  simp only [Shared.write]
  rw [ho.1, slot_ofNat hN, Function.update_self]

/-- What another producer owns is not written. -/
lemma Owns.data_write (hN : ∃ k < 64, N = 2 ^ k) (h : SharedInv N s) (ho : Owns N p val pos s n)
    {p' : ι} {val' : α} {pos' : BitVec 64} {n' : ℕ} (hne : p' ≠ p)
    (ho' : Owns N p' val' pos' s n') : (s.write N val pos).data (n' % N) = s.data (n' % N) := by
  have hslot := RingIndex.mod_ne_mod_of_window (h.window ho'.2.2.1 ho'.2.1)
    (h.window ho.2.2.1 ho.2.1) (ho.ne ho' hne)
  simp only [Shared.write]
  rw [ho.1, slot_ofNat hN, Function.update_of_ne hslot]

/-- The sequence numbers after a publication: that of the slot, and those of the others. -/
lemma Shared.seq_publish (hN : ∃ k < 64, N = 2 ^ k) (ho : Owns N p val pos s n) :
    (s.publish N p val pos).seq = Function.update s.seq (n % N) (BitVec.ofNat 64 (n + 1)) := by
  simp only [Shared.publish]
  rw [ho.1, slot_ofNat hN, BitVec.ofNat_add]
  rfl

lemma Published.publish (hN : ∃ k < 64, N = 2 ^ k) (h : SharedInv N s) (ho : Owns N p val pos s n)
    {m : ℕ} (hm : s.popped.length ≤ m) (hp : Published N s m) :
    Published N (s.publish N p val pos) m := by
  have hne := ho.not_published hp
  obtain ⟨e, he, hseq, hdata⟩ := hp
  have hslot := RingIndex.mod_ne_mod_of_window (h.window hm he) (h.window ho.2.2.1 ho.2.1) hne
  refine ⟨e, he, ?_, hdata⟩
  rw [Shared.seq_publish hN ho, Function.update_of_ne hslot]
  exact hseq

/-- The owner of a position publishes what it has written. -/
lemma SharedInv.publish (hN : ∃ k < 64, N = 2 ^ k) (h : SharedInv N s) (ho : Owns N p val pos s n)
    (hdata : s.data (n % N) = val) : SharedInv N (s.publish N p val pos) := by
  refine { h with states := ?_ }
  intro m hm
  by_cases hmn : m = n
  · subst hmn
    right
    refine ⟨_, ho.2.1, ?_, hdata⟩
    rw [Shared.seq_publish hN ho, Function.update_self]
  · have hslot := RingIndex.mod_ne_mod_of_window hm (h.window ho.2.2.1 ho.2.1) hmn
    apply (h.states m hm).imp
    · intro hfree
      rw [Shared.seq_publish hN ho, Function.update_of_ne hslot]
      exact hfree
    · exact Published.publish hN h ho hm.1

/-- What another producer owns is not published. -/
lemma Owns.publish (hN : ∃ k < 64, N = 2 ^ k) (h : SharedInv N s) (ho : Owns N p val pos s n)
    {p' : ι} {val' : α} {pos' : BitVec 64} {n' : ℕ} (hne : p' ≠ p)
    (ho' : Owns N p' val' pos' s n') : Owns N p' val' pos' (s.publish N p val pos) n' := by
  have hslot := RingIndex.mod_ne_mod_of_window (h.window ho'.2.2.1 ho'.2.1)
    (h.window ho.2.2.1 ho.2.1) (ho.ne ho' hne)
  refine ⟨ho'.1, ho'.2.1, ho'.2.2.1, ?_⟩
  rw [Shared.seq_publish hN ho, Function.update_of_ne hslot]
  exact ho'.2.2.2

end Write

section Release

variable {val : α}

/-- The sequence numbers after a pop. -/
lemma SharedInv.seq_release (hN : ∃ k < 64, N = 2 ^ k) (h : SharedInv N s) :
    (s.release N val).seq =
      Function.update s.seq (s.popped.length % N) (BitVec.ofNat 64 (s.popped.length + N)) := by
  simp only [Shared.release]
  rw [h.head_eq, slot_ofNat hN, BitVec.ofNat_add]

/-- The slot of the next pop is given back. -/
lemma SharedInv.release (hN : ∃ k < 64, N = 2 ^ k) (h : SharedInv N s)
    (hc : ConsumerInv N s (.releaseSlot val)) : SharedInv N (s.release N val) := by
  obtain ⟨e, he, rfl, hseq⟩ := hc
  have hwin := h.window le_rfl he
  have hlt := (List.getElem?_eq_some_iff.mp he).1
  have hfull := h.claims_le
  have hlen : (s.release N e.value).popped.length = s.popped.length + 1 := by
    simp [Shared.release]
  constructor
  · exact h.tail_eq
  · rw [hlen, BitVec.ofNat_add, ← h.head_eq]
    rfl
  · rw [hlen, List.take_add_one]
    simp only [Shared.release]
    rw [List.getElem?_map, he, ← h.popped_eq]
    rfl
  · rw [hlen]
    exact hlt
  · rw [hlen]
    simp only [Shared.release]
    omega
  · exact h.room
  · exact h.slots
  · intro n hn
    rw [hlen] at hn
    rw [h.seq_release hN]
    by_cases hlast : n = s.popped.length + N
    · subst hlast
      left
      rw [Nat.add_mod_right, Function.update_self]
    · have hn' : s.popped.length ≤ n ∧ n < s.popped.length + N := by omega
      have hslot := RingIndex.mod_ne_mod_of_window hn' hwin (by omega)
      apply (h.states n hn').imp
      · intro hfree
        rw [Function.update_of_ne hslot]
        exact hfree
      · rintro ⟨b, hb, hbseq, hbdata⟩
        refine ⟨b, hb, ?_, hbdata⟩
        rw [h.seq_release hN, Function.update_of_ne hslot]
        exact hbseq

/-- A position that is owned is not popped. -/
lemma Owns.release (hN : ∃ k < 64, N = 2 ^ k) (h : SharedInv N s)
    (hc : ConsumerInv N s (.releaseSlot val)) {p : ι} {val' : α} {pos : BitVec 64} {n : ℕ}
    (ho : Owns N p val' pos s n) : Owns N p val' pos (s.release N val) n := by
  obtain ⟨e, he, -, hseq⟩ := hc
  have hne : n ≠ s.popped.length := by
    rintro rfl
    exact ofNat_ne_succ _ (ho.2.2.2.symm.trans hseq)
  have hle := ho.2.2.1
  have hslot := RingIndex.mod_ne_mod_of_window (h.window hle ho.2.1) (h.window le_rfl he) hne
  refine ⟨ho.1, ho.2.1, ?_, ?_⟩
  · simp only [Shared.release, List.length_append, List.length_singleton]
    omega
  · rw [h.seq_release hN, Function.update_of_ne hslot]
    exact ho.2.2.2

end Release

/-- One element of a list passes a test that the others fail. -/
private lemma filter_eq_singleton {β : Type} {q : β → Prop} [DecidablePred q] {l : List β} {i : ℕ}
    {e : β} (he : l[i]? = some e) (hq : q e)
    (hother : ∀ j b, l[j]? = some b → j ≠ i → ¬q b) : l.filter q = [e] := by
  induction l generalizing i with
  | nil => simp at he
  | cons a l ih =>
    cases i with
    | zero =>
      obtain rfl : a = e := by simpa using he
      have hrest : l.filter q = [] := by
        apply List.filter_eq_nil_iff.mpr
        intro b hb
        obtain ⟨j, hj⟩ := List.mem_iff_getElem?.mp hb
        simpa using hother (j + 1) b (by simpa using hj) (by omega)
      rw [List.filter_cons_of_pos (by simpa using hq), hrest]
    | succ i =>
      have hhead : ¬q a := hother 0 a (by simp) (by omega)
      rw [List.filter_cons_of_neg (by simpa using hhead)]
      apply ih (by simpa using he)
      intro j b hb hj
      exact hother (j + 1) b (by simpa using hb) (by omega)

/-- A slot about to be written belongs to one claim only. -/
lemma SharedInv.filter_unpopped (hN : ∃ k < 64, N = 2 ^ k) (h : SharedInv N s) {p : ι} {val : α}
    {pos : BitVec 64} {n : ℕ} (ho : Owns N p val pos s n) :
    s.unpopped.filter (fun e => e.slot = slot N pos) = [⟨p, val, slot N pos⟩] := by
  have hslot : slot N pos = n % N := by rw [ho.1, slot_ofNat hN]
  rw [hslot]
  have hle := ho.2.2.1
  apply filter_eq_singleton (i := n - s.popped.length)
  · rw [Shared.unpopped, List.getElem?_drop, Nat.add_sub_cancel' hle]
    exact ho.2.1
  · rfl
  · intro j b hb hj
    rw [Shared.unpopped, List.getElem?_drop] at hb
    rw [h.slots _ b hb]
    exact RingIndex.mod_ne_mod_of_window (h.window (Nat.le_add_right ..) hb) (h.window hle ho.2.1)
      (by omega)

/-- A push that finds the queue full finds its slot with the value of the next pop. -/
lemma SharedInv.full (hN : ∃ k < 64, N = 2 ^ k) (hsize : 2 ≤ N) (h : SharedInv N s) {n : ℕ}
    (hn : n ≤ s.claims.length)
    (hfull : diff (s.seq (slot N (BitVec.ofNat 64 n))) (BitVec.ofNat 64 n) < 0) :
    ∃ m e, n = m + N ∧ s.claims[m]? = some e ∧ s.popped.length ≤ m ∧
      e.slot = slot N (BitVec.ofNat 64 n) ∧
      (s.data e.slot = e.value ∨ s.seq e.slot = BitVec.ofNat 64 m) := by
  obtain rfl := (h.test_push hN hsize hn).2 hfull
  have hlt : s.popped.length < s.claims.length := by omega
  have he : s.claims[s.popped.length]? = some s.claims[s.popped.length] :=
    List.getElem?_eq_getElem hlt
  have hslot := h.slots _ _ he
  refine ⟨_, _, rfl, he, le_rfl, ?_, ?_⟩
  · rw [hslot, slot_ofNat hN, Nat.add_mod_right]
  · rw [hslot]
    rcases h.states _ ⟨le_rfl, by omega⟩ with hfree | ⟨b, hb, -, hdata⟩
    · exact Or.inr hfree
    · rw [he, Option.some.injEq] at hb
      exact Or.inl (hb ▸ hdata)

/-! ### Steps of the threads -/

/-- No position is claimed that would make a signed difference overflow. -/
def Room (N : ℕ) : Thread ι → Shared ι α → Pc α → Choice α → Prop
  | .producer _, s, .casTail _ _, _ => s.claims.length + N < 2 ^ 63
  | _, _, _, _ => True

/-- What a step of a producer can do. -/
inductive PushStep (N : ℕ) (p : ι) (s : Shared ι α) (pc : Pc α) : Shared ι α × Pc α → Prop where
  | look (pc' : Pc α) (hval : pc'.inFlight = pc.inFlight) (hpos : PositionInv N p s pc') :
    PushStep N p s pc (s, pc')
  | refuse (val : α) (hval : pc.inFlight = []) : PushStep N p s pc (s.refuse p val, .idle)
  | claim (val : α) (hval : pc.inFlight = []) (hlt : s.claims.length < s.popped.length + N)
    (hroom : s.claims.length + N < 2 ^ 63) :
    PushStep N p s pc (s.claim N p val (BitVec.ofNat 64 s.claims.length),
      .writeData val (BitVec.ofNat 64 s.claims.length))
  | write (val : α) (pos : BitVec 64) (n : ℕ) (hval : pc.inFlight = [val])
    (ho : Owns N p val pos s n) : PushStep N p s pc (s.write N val pos, .storeSeq val pos)
  | publish (val : α) (pos : BitVec 64) (n : ℕ) (hval : pc.inFlight = [val])
    (ho : Owns N p val pos s n) (hdata : s.data (n % N) = val) :
    PushStep N p s pc (s.publish N p val pos, .idle)

/-- A load of `tail_` gives a position. -/
lemma SharedInv.position_tail (h : SharedInv N s) (p : ι) (val : α) :
    PositionInv N p s (.loadSeq val s.tail) :=
  ⟨_, le_rfl, h.tail_eq⟩

lemma SharedInv.push_spec (hN : ∃ k < 64, N = 2 ^ k) (hsize : 2 ≤ N) (h : SharedInv N s) {p : ι}
    {pc : Pc α} (hpc : PositionInv N p s pc) (choice : Choice α)
    (hroom : Room N (.producer p) s pc choice) : PushStep N p s pc (push N p s choice pc) := by
  cases pc with
  | idle =>
    cases hchoice : choice.val with
    | none =>
      simp only [push, hchoice]
      exact .look _ rfl trivial
    | some val =>
      simp only [push, hchoice]
      exact .look _ rfl (h.position_tail p val)
  | loadSeq val pos =>
    obtain ⟨n, hn, rfl⟩ := hpc
    simp only [push]
    split_ifs with hfree hfull
    · exact .look _ rfl ⟨n, hn, (h.test_push hN hsize hn).1 hfree, rfl⟩
    · exact .refuse val rfl
    · exact .look _ rfl trivial
  | reloadTail val => exact .look _ rfl (h.position_tail p val)
  | casTail val pos =>
    obtain ⟨n, hn, hlt, rfl⟩ := hpc
    simp only [push]
    split_ifs with hcas
    · obtain rfl := h.eq_tail hn hcas.1
      exact .claim val rfl hlt hroom
    · exact .look _ rfl (h.position_tail p val)
  | writeData val pos =>
    obtain ⟨n, ho⟩ := hpc
    exact .write val pos n rfl ho
  | storeSeq val pos =>
    obtain ⟨n, ho, hdata⟩ := hpc
    exact .publish val pos n rfl ho hdata
  | readData => exact hpc.elim
  | releaseSlot val => exact hpc.elim

/-- A step of a producer keeps the invariant of the queue. -/
lemma SharedInv.push_step (hN : ∃ k < 64, N = 2 ^ k) (h : SharedInv N s) {p : ι} {pc : Pc α}
    {next : Shared ι α × Pc α} (hstep : PushStep N p s pc next) : SharedInv N next.1 := by
  cases hstep with
  | look pc' hval hpos => exact h
  | refuse val hval => exact { h with }
  | claim val hval hlt hroom => exact h.claim hN hlt hroom
  | write val pos n hval ho => exact h.write hN ho
  | publish val pos n hval ho hdata => exact h.publish hN ho hdata

/-- A producer establishes what it knows next. -/
lemma SharedInv.position_push (hN : ∃ k < 64, N = 2 ^ k) (h : SharedInv N s) {p : ι} {pc : Pc α}
    {next : Shared ι α × Pc α} (hstep : PushStep N p s pc next) :
    PositionInv N p next.1 next.2 := by
  cases hstep with
  | look pc' hval hpos => exact hpos
  | refuse val hval => trivial
  | claim val hval hlt hroom => exact ⟨_, h.owns_claim hN hlt⟩
  | write val pos n hval ho => exact ⟨n, ho, Shared.data_write hN ho⟩
  | publish val pos n hval ho hdata => trivial

/-- A producer does not touch the positions of the other ones. -/
lemma SharedInv.position_other (hN : ∃ k < 64, N = 2 ^ k) (h : SharedInv N s) {p p' : ι}
    {pc pc' : Pc α} {next : Shared ι α × Pc α} (hstep : PushStep N p s pc next) (hne : p' ≠ p)
    (hpos : PositionInv N p' s pc') : PositionInv N p' next.1 pc' := by
  cases hstep with
  | look => exact hpos
  | refuse =>
    refine hpos.frame le_rfl le_rfl ?_
    exact fun _ _ _ ho' => ⟨ho', rfl⟩
  | claim =>
    refine hpos.frame ?_ le_rfl ?_
    · simp [Shared.claim]
    · exact fun _ _ _ ho' => ⟨ho'.claim (s := s), rfl⟩
  | write _ _ _ _ ho =>
    refine hpos.frame le_rfl le_rfl ?_
    exact fun _ _ _ ho' => ⟨ho', ho.data_write hN h hne ho'⟩
  | publish _ _ _ _ ho =>
    refine hpos.frame le_rfl le_rfl ?_
    exact fun _ _ _ ho' => ⟨ho.publish hN h hne ho', rfl⟩

/-- A producer leaves the published positions published, so the consumer is not disturbed. -/
lemma SharedInv.consumer_push (hN : ∃ k < 64, N = 2 ^ k) (h : SharedInv N s) {p : ι}
    {pc pc' : Pc α} {next : Shared ι α × Pc α} (hstep : PushStep N p s pc next)
    (hc : ConsumerInv N s pc') : ConsumerInv N next.1 pc' := by
  cases hstep with
  | look => exact hc
  | refuse => cases pc' <;> exact hc
  | claim =>
    cases pc' with
    | readData => exact Published.claim hc
    | releaseSlot val =>
      obtain ⟨e, he, hval, hseq⟩ := hc
      exact ⟨e, RingIndex.getElem?_append_of_eq_some he _, hval, hseq⟩
    | _ => exact hc
  | write _ _ _ _ ho =>
    cases pc' with
    | readData => exact Published.write hN h ho le_rfl hc
    | releaseSlot val => exact hc
    | _ => exact hc
  | publish v pos n _ ho =>
    cases pc' with
    | readData => exact Published.publish hN h ho le_rfl hc
    | releaseSlot val =>
      obtain ⟨e, he, hval, hseq⟩ := hc
      have hne : s.popped.length ≠ n := by
        rintro rfl
        exact ofNat_ne_succ _ (ho.2.2.2.symm.trans hseq)
      have hslot := RingIndex.mod_ne_mod_of_window (h.window le_rfl he)
        (h.window ho.2.2.1 ho.2.1) hne
      refine ⟨e, he, hval, ?_⟩
      rw [Shared.seq_publish hN ho]
      exact (Function.update_of_ne hslot ..).trans hseq
    | _ => exact hc

/-- What a step of the consumer can do. -/
inductive PopStep (N : ℕ) (s : Shared ι α) (pc : Pc α) : Shared ι α × Pc α → Prop where
  | look (pc' : Pc α) (hc : ConsumerInv N s pc') : PopStep N s pc (s, pc')
  | release (val : α) (hc : ConsumerInv N s (.releaseSlot val)) :
    PopStep N s pc (s.release N val, .idle)

lemma SharedInv.pop_spec (hN : ∃ k < 64, N = 2 ^ k) (hsize : 2 ≤ N) (h : SharedInv N s)
    {pc : Pc α} (hpc : ConsumerInv N s pc) : PopStep N s pc (pop N s pc) := by
  cases pc with
  | idle =>
    simp only [pop]
    split_ifs with hempty
    · exact .look _ trivial
    · exact .look _ (h.test_pop hN hsize hempty)
  | readData =>
    obtain ⟨e, he, hseq, hdata⟩ : Published N s s.popped.length := hpc
    refine .look _ ⟨e, he, ?_, hseq⟩
    rw [h.head_eq, slot_ofNat hN, hdata]
  | releaseSlot val => exact .release val hpc
  | _ => exact hpc.elim

/-- A step of the consumer keeps the invariant of the queue. -/
lemma SharedInv.pop_step (hN : ∃ k < 64, N = 2 ^ k) (h : SharedInv N s) {pc : Pc α}
    {next : Shared ι α × Pc α} (hstep : PopStep N s pc next) : SharedInv N next.1 := by
  cases hstep with
  | look pc' hc => exact h
  | release val hc => exact h.release hN hc

/-- The consumer establishes what it knows next. -/
lemma PopStep.consumer {pc : Pc α} {next : Shared ι α × Pc α} (hstep : PopStep N s pc next) :
    ConsumerInv N next.1 next.2 := by
  cases hstep with
  | look pc' hc => exact hc
  | release val hc => trivial

/-- The consumer does not touch the positions of the producers. -/
lemma SharedInv.position_pop (hN : ∃ k < 64, N = 2 ^ k) (h : SharedInv N s) {p : ι}
    {pc pc' : Pc α} {next : Shared ι α × Pc α} (hstep : PopStep N s pc next)
    (hpos : PositionInv N p s pc') : PositionInv N p next.1 pc' := by
  cases hstep with
  | look => exact hpos
  | release _ hc =>
    refine hpos.frame le_rfl ?_ ?_
    · simp [Shared.release]
    · exact fun _ _ _ ho => ⟨ho.release hN h hc, rfl⟩

/-! ### What a producer has pushed -/

section Account

variable [DecidableEq ι]

lemma claimed_claim (p p' : ι) (val : α) (pos : BitVec 64) :
    (s.claim N p val pos).claimed p' = s.claimed p' ++ if p = p' then [val] else [] := by
  by_cases hp : p = p' <;> simp [Shared.claimed, Shared.claim, hp]

lemma accepted_refuse (p p' : ι) (val : α) : (s.refuse p val).accepted p' = s.accepted p' := by
  simp [Shared.accepted, Shared.refuse]

lemma accepted_publish (p p' : ι) (val : α) (pos : BitVec 64) :
    (s.publish N p val pos).accepted p' = s.accepted p' ++ if p = p' then [val] else [] := by
  by_cases hp : p = p' <;> simp [Shared.accepted, Shared.publish, hp]

/-- A producer keeps its account. -/
lemma PushStep.account {p : ι} {pc : Pc α} {next : Shared ι α × Pc α}
    (hstep : PushStep N p s pc next) (h : s.claimed p = s.accepted p ++ pc.inFlight) :
    next.1.claimed p = next.1.accepted p ++ next.2.inFlight := by
  cases hstep with
  | look pc' hval hpos => rw [hval, h]
  | refuse val hval =>
    rw [hval] at h
    rw [accepted_refuse]
    exact h
  | claim val hval hlt hroom =>
    rw [hval, List.append_nil] at h
    rw [claimed_claim, if_pos rfl, h]
    rfl
  | write val pos n hval ho =>
    rw [hval] at h
    exact h
  | publish val pos n hval ho hdata =>
    rw [hval] at h
    rw [accepted_publish, if_pos rfl]
    exact h.trans (List.append_nil _).symm

/-- A producer does not touch the account of another one. -/
lemma PushStep.account_other {p p' : ι} {pc : Pc α} {next : Shared ι α × Pc α}
    (hstep : PushStep N p s pc next) (hne : p' ≠ p) :
    next.1.claimed p' = s.claimed p' ∧ next.1.accepted p' = s.accepted p' := by
  cases hstep with
  | look => exact ⟨rfl, rfl⟩
  | refuse => exact ⟨rfl, accepted_refuse ..⟩
  | claim => exact ⟨by rw [claimed_claim, if_neg hne.symm, List.append_nil], rfl⟩
  | write => exact ⟨rfl, rfl⟩
  | publish => exact ⟨rfl, by rw [accepted_publish, if_neg hne.symm, List.append_nil]⟩

/-- The consumer does not touch the accounts of the producers. -/
lemma PopStep.account {pc : Pc α} {next : Shared ι α × Pc α} (hstep : PopStep N s pc next) (p : ι) :
    next.1.claimed p = s.claimed p ∧ next.1.accepted p = s.accepted p := by
  cases hstep with
  | look => exact ⟨rfl, rfl⟩
  | release => exact ⟨rfl, rfl⟩

/-- The invariant is inductive. -/
theorem inductive_inv (hN : ∃ k < 64, N = 2 ^ k) (hsize : 2 ≤ N) :
    Interleaving.Inductive (act N) (Room (ι := ι) (α := α) N) (SharedInv N) (ThreadInv N) where
  shared t s pc choice hroom h ht := by
    cases t with
    | producer p => exact h.push_step hN (h.push_spec hN hsize ht.2 choice hroom)
    | consumer => exact h.pop_step hN (h.pop_spec hN hsize ht)
  own t s pc choice hroom h ht := by
    cases t with
    | producer p =>
      have hstep := h.push_spec hN hsize ht.2 choice hroom
      exact ⟨hstep.account ht.1, h.position_push hN hstep⟩
    | consumer => exact (h.pop_spec hN hsize ht).consumer
  others t s pc choice hroom h ht t' pc' hne ht' := by
    cases t with
    | producer p =>
      have hstep := h.push_spec hN hsize ht.2 choice hroom
      cases t' with
      | producer p' =>
        have hp : p' ≠ p := fun heq => hne (by rw [heq])
        obtain ⟨hclaimed, haccepted⟩ := hstep.account_other hp
        refine ⟨?_, h.position_other hN hstep hp ht'.2⟩
        exact hclaimed.trans (ht'.1.trans (by rw [← haccepted]; rfl))
      | consumer => exact h.consumer_push hN hstep ht'
    | consumer =>
      have hstep := h.pop_spec hN hsize ht
      cases t' with
      | producer p' =>
        obtain ⟨hclaimed, haccepted⟩ := hstep.account p'
        refine ⟨?_, h.position_pop hN hstep ht'.2⟩
        exact hclaimed.trans (ht'.1.trans (by rw [← haccepted]; rfl))
      | consumer => exact absurd rfl hne

/-! ### The queue loses nothing -/

/-- The invariant says all there is to say. -/
lemma lossless_of_holds (hN : ∃ k < 64, N = 2 ^ k) (hsize : 2 ≤ N)
    {c : Interleaving.Config (Shared ι α) (Thread ι) (Pc α)}
    (h : Interleaving.Holds (SharedInv N) (ThreadInv N) c) : Lossless N c := by
  constructor
  · rw [h.shared.popped_eq]
    exact List.take_prefix _ _
  · exact fun p => (h.locals (.producer p)).1
  · intro p val pos hp
    have hpos := (h.locals (.producer p)).2
    rw [hp] at hpos
    obtain ⟨n, ho⟩ := hpos
    exact h.shared.filter_unpopped hN ho
  · intro p val choice hfail
    have hpos := (h.locals (.producer p)).2
    rw [Interleaving.shared_step, act] at hfail
    cases hp : c.locals (.producer p) with
    | loadSeq val' pos =>
      rw [hp] at hfail hpos
      obtain ⟨n, hn, rfl⟩ := hpos
      simp only [push] at hfail
      split_ifs at hfail with hfree hfull
      · simp at hfail
      · obtain ⟨m, e, rfl, he, hle, hslot, hheld⟩ := h.shared.full hN hsize hn hfull
        obtain rfl : val' = val := by simpa [Shared.refuse] using hfail
        exact ⟨_, m, e, rfl, rfl, he, hle, hslot, hheld⟩
      · simp at hfail
    | idle =>
      rw [hp] at hfail
      cases hchoice : choice.val <;> simp [push, hchoice] at hfail
    | casTail val' pos =>
      rw [hp] at hfail
      simp only [push] at hfail
      split_ifs at hfail <;> simp [Shared.claim] at hfail
    | _ =>
      rw [hp] at hfail
      simp [push, Shared.write, Shared.publish] at hfail

end Account

end Step

instance (N : ℕ) (t : Thread ι) (s : Shared ι α) (pc : Pc α) (choice : Choice α) :
    Decidable (Room N t s pc choice) := by
  unfold Room
  split <;> infer_instance

/-- **The queue loses and duplicates nothing.**  For every power of two `N` from two on, in every
interleaving of the consumer and any number of producers in which no position is claimed that would
make the signed differences overflow. -/
theorem lossless_run [DecidableEq ι] {N : ℕ} (hN : ∃ k < 64, N = 2 ^ k) (hsize : 2 ≤ N)
    (init : ℕ → α) (steps : List (Thread ι × Choice α))
    (h : Transition.Admissible (Interleaving.step (act N)) (Interleaving.Allows (Room N))
      (start init) steps) :
    Lossless N (Transition.run (Interleaving.step (act N)) (start init) steps) := by
  apply lossless_of_holds hN hsize
  apply Interleaving.Holds.run (inductive_inv hN hsize) h
  constructor
  · apply sharedInv_start
    obtain ⟨k, hk, rfl⟩ := hN
    exact Nat.pow_le_pow_right (by decide) (by omega)
  · rintro (p | _)
    · exact ⟨rfl, trivial⟩
    · trivial

/-- The steps of a push of `val` that nobody disturbs. -/
def pushAlone (val : α) : List (Thread Unit × Choice α) :=
  List.replicate 5 (.producer (), ⟨some val, false⟩)

/-- The steps of a pop that finds a value. -/
def popAlone : List (Thread Unit × Choice α) :=
  List.replicate 3 (.consumer, ⟨none, false⟩)

/-- The rule at a run in which two slots are filled, a push finds the queue full, and a value is
popped. -/
theorem lossless_run_twoSlots :
    Lossless 2 (Transition.run (Interleaving.step (act 2)) (start fun _ => 0)
      (pushAlone 5 ++ pushAlone 6 ++ pushAlone 7 ++ popAlone)) :=
  lossless_run ⟨1, by decide, rfl⟩ le_rfl _ _ (by decide)

/-- In a queue of one slot the second push takes the published slot for a free one: both pushes
return `true`, and the first value is overwritten before it is popped. -/
theorem not_lossless_oneSlot :
    let run := Transition.run (Interleaving.step (act 1)) (start fun _ => 0)
    (run (pushAlone 5 ++ pushAlone 6)).shared.returned = [⟨(), 5, true⟩, ⟨(), 6, true⟩] ∧
      (run (pushAlone 5 ++ pushAlone 6 ++ popAlone)).shared.popped = [6] ∧
      ¬Lossless 1 (run (pushAlone 5 ++ pushAlone 6 ++ popAlone)) := by
  refine ⟨by decide, by decide, ?_⟩
  intro h
  have hfifo := h.fifo
  revert hfifo
  decide

end MPSCQueue

end QuantTrade
