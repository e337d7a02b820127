import Mathlib.Data.List.ReduceOption
import QuantTrade.Infra.SPSCQueue
import QuantTrade.Library.RingIndex
import QuantTrade.Library.Transition

/-!
# The ring buffer between two threads

`push` and `pop` of `src/infra/spsc_queue.hpp`, one load, buffer access or store at a time, in one
producer and one consumer.  What the indices stand for are the numbers of values pushed and popped
so far; as long as they are at most `N` apart, the masked and wrapped indices identify the slots
(`Inv`).  What was pushed and popped is read off the calls: the arguments of the pushes that
returned `true`, and what the pops returned (`Observed`).  The values come out in the order in which
they went in, none is overwritten before it is popped, and an operation fails only when the queue is
full or empty (`bounded_fifo_run`).
-/

namespace QuantTrade

namespace SPSCQueue

namespace Interleaved

variable {α : Type}

/-- Where the producer is in `push(val)`, with its local variables: the next operation on the shared
state is the one named. -/
inductive Producer (α : Type) where
  /-- Not in a call; the next step begins one and loads `tail_`. -/
  | idle
  | loadHead (val : α) (tail : BitVec 64)
  | writeSlot (val : α) (tail : BitVec 64)
  | storeTail (val : α) (tail : BitVec 64)

/-- Where the consumer is in `pop`. -/
inductive Consumer (α : Type) where
  /-- Not in a call; the next step begins one and loads `head_`. -/
  | idle
  | loadTail (head : BitVec 64)
  | readSlot (head : BitVec 64)
  | storeHead (head : BitVec 64) (val : α)

/-- The shared state and the two threads, with what the calls returned: `push` a boolean, `pop` the
value that it wrote to its argument, if it returned `true`. -/
structure State (α : Type) where
  tail : BitVec 64
  head : BitVec 64
  buffer : ℕ → α
  producer : Producer α
  consumer : Consumer α
  pushResults : List Bool
  popResults : List (Option α)

/-- Which thread takes the next step; a producer that is not in a call begins `push(val)`. -/
inductive Action (α : Type) where
  | produce (val : α)
  | consume

/-- One step of the producer. -/
def produce (N : ℕ) (s : State α) (val : α) : State α :=
  match s.producer with
  | .idle => { s with producer := .loadHead val s.tail }
  | .loadHead val tail =>
    if (tail - s.head).toNat = N then
      { s with producer := .idle, pushResults := s.pushResults ++ [false] }
    else { s with producer := .writeSlot val tail }
  | .writeSlot val tail =>
    { s with
      producer := .storeTail val tail
      buffer := Function.update s.buffer (slot N tail) val }
  | .storeTail _ tail =>
    { s with producer := .idle, tail := tail + 1, pushResults := s.pushResults ++ [true] }

/-- One step of the consumer. -/
def consume (N : ℕ) (s : State α) : State α :=
  match s.consumer with
  | .idle => { s with consumer := .loadTail s.head }
  | .loadTail head =>
    if s.tail = head then
      { s with consumer := .idle, popResults := s.popResults ++ [none] }
    else { s with consumer := .readSlot head }
  | .readSlot head => { s with consumer := .storeHead head (s.buffer (slot N head)) }
  | .storeHead head val =>
    { s with consumer := .idle, head := head + 1, popResults := s.popResults ++ [some val] }

/-- One step. -/
def step (N : ℕ) (s : State α) : Action α → State α
  | .produce val => produce N s val
  | .consume => consume N s

/-! ## The calls -/

/-- The queue with the calls that were made of it: the arguments of the pushes, and how many pops
there were. -/
structure Observed (α : Type) where
  state : State α
  pushArgs : List α
  popCalls : ℕ

/-- A new queue; the buffer is not initialised. -/
def start (uninit : ℕ → α) : Observed α where
  state :=
    { tail := 0
      head := 0
      buffer := uninit
      producer := .idle
      consumer := .idle
      pushResults := []
      popResults := [] }
  pushArgs := []
  popCalls := 0

/-- The values whose pushes returned `true`. -/
def acceptedBy (args : List α) (results : List Bool) : List α :=
  ((args.zip results).filter Prod.snd).map Prod.fst

namespace Observed

/-- One step; a thread that is not in a call begins one. -/
def step (N : ℕ) (o : Observed α) (action : Action α) : Observed α where
  state := Interleaved.step N o.state action
  pushArgs :=
    match o.state.producer, action with
    | .idle, .produce val => o.pushArgs ++ [val]
    | _, _ => o.pushArgs
  popCalls :=
    match o.state.consumer, action with
    | .idle, .consume => o.popCalls + 1
    | _, _ => o.popCalls

/-- The values pushed: the arguments of the pushes that returned `true`. -/
def accepted (o : Observed α) : List α :=
  acceptedBy o.pushArgs o.state.pushResults

/-- The values popped: what the pops returned. -/
def popped (o : Observed α) : List α :=
  o.state.popResults.reduceOption

end Observed

/-- The argument of the push that is in progress. -/
def Producer.arg? : Producer α → Option α
  | .idle => none
  | .loadHead val _ | .writeSlot val _ | .storeTail val _ => some val

/-- The number of pops in progress. -/
def Consumer.inCall : Consumer α → ℕ
  | .idle => 0
  | .loadTail _ | .readSlot _ | .storeHead _ _ => 1

/-- The queue is a lossless bounded FIFO. -/
structure Lossless (N : ℕ) (o : Observed α) : Prop where
  /-- Every push has returned but the one in progress. -/
  pushes : o.pushArgs.length =
    o.state.pushResults.length + o.state.producer.arg?.toList.length
  /-- Every pop has returned but the one in progress. -/
  pops : o.popCalls = o.state.popResults.length + o.state.consumer.inCall
  /-- The values popped are the first of the values pushed, in order. -/
  fifo : o.popped <+: o.accepted
  /-- A value that is pushed and not popped is in its slot. -/
  held : ∀ n val, o.popped.length ≤ n → o.accepted[n]? = some val → o.state.buffer (n % N) = val
  /-- The slot about to be written is that of no such value. -/
  overwrite : ∀ val tail, o.state.producer = .writeSlot val tail →
    ∀ n, o.popped.length ≤ n → n < o.accepted.length → n % N ≠ slot N tail
  /-- A push that fails now has read `head_` while `N` values were there. -/
  full : ∀ val, (o.step N (.produce val)).state.pushResults = o.state.pushResults ++ [false] →
    o.accepted.length = o.popped.length + N
  /-- A pop that fails now has read `tail_` while no value was there. -/
  empty : (o.step N .consume).state.popResults = o.state.popResults ++ [none] →
    o.accepted.length = o.popped.length

/-! ## The invariant -/

/-- What the producer knows: its index is that of the next push, and past the test the queue has
room. -/
def ProducerInv (N : ℕ) (pushed popped : List α) (buffer : ℕ → α) : Producer α → Prop
  | .idle => True
  | .loadHead _ tail => tail = BitVec.ofNat 64 pushed.length
  | .writeSlot _ tail =>
    tail = BitVec.ofNat 64 pushed.length ∧ pushed.length < popped.length + N
  | .storeTail val tail =>
    tail = BitVec.ofNat 64 pushed.length ∧ pushed.length < popped.length + N ∧
      buffer (pushed.length % N) = val

/-- What the consumer knows: its index is that of the next pop, and past the test there is a value,
which it then holds. -/
def ConsumerInv (pushed popped : List α) : Consumer α → Prop
  | .idle => True
  | .loadTail head => head = BitVec.ofNat 64 popped.length
  | .readSlot head => head = BitVec.ofNat 64 popped.length ∧ popped.length < pushed.length
  | .storeHead head val =>
    head = BitVec.ofNat 64 popped.length ∧ pushed[popped.length]? = some val

/-- The indices count the values pushed and popped, at most `N` apart, and the slots hold the values
in between. -/
structure Inv (N : ℕ) (pushed popped : List α) (s : State α) : Prop where
  tail_eq : s.tail = BitVec.ofNat 64 pushed.length
  head_eq : s.head = BitVec.ofNat 64 popped.length
  popped_eq : popped = pushed.take popped.length
  popped_le : popped.length ≤ pushed.length
  pushed_le : pushed.length ≤ popped.length + N
  held : ∀ n val, popped.length ≤ n → pushed[n]? = some val → s.buffer (n % N) = val
  producer : ProducerInv N pushed popped s.buffer s.producer
  consumer : ConsumerInv pushed popped s.consumer

/-- What the next step of the producer adds to the values pushed. -/
def Producer.publishes : Producer α → List α
  | .storeTail val _ => [val]
  | _ => []

/-- What the next step of the consumer adds to the values popped. -/
def Consumer.takes : Consumer α → List α
  | .storeHead _ val => [val]
  | _ => []

section Step

variable {N : ℕ} {pushed popped : List α} {s : State α}

/-- The counter of a log leads to the slot of its next entry. -/
lemma slot_length (hN : ∃ k < 64, N = 2 ^ k) (log : List α) :
    slot N (BitVec.ofNat 64 log.length) = log.length % N :=
  RingIndex.and_mask_ofNat hN _

/-- A counter of the ring does not overtake the other one by the size of a word. -/
lemma Inv.lt_word (hN : ∃ k < 64, N = 2 ^ k) (h : Inv N pushed popped s) :
    pushed.length - popped.length < 2 ^ 64 := by
  obtain ⟨k, hk, hpow⟩ := hN
  have hlt : N < 2 ^ 64 := hpow ▸ Nat.pow_lt_pow_right (by decide) hk
  have hroom := h.pushed_le
  omega

/-- The difference of the indices is the number of values that are there. -/
lemma Inv.toNat_sub (hN : ∃ k < 64, N = 2 ^ k) (h : Inv N pushed popped s) :
    (s.tail - s.head).toNat = pushed.length - popped.length := by
  rw [h.tail_eq, h.head_eq, RingIndex.toNat_sub_ofNat h.popped_le (h.lt_word hN)]

/-- The test of `push` compares the number of values there with `N`. -/
lemma Inv.isFull_iff (hN : ∃ k < 64, N = 2 ^ k) (h : Inv N pushed popped s) :
    (BitVec.ofNat 64 pushed.length - s.head).toNat = N ↔
      pushed.length = popped.length + N := by
  have hle := h.popped_le
  rw [← h.tail_eq, h.toNat_sub hN]
  omega

/-- The test of `pop` asks whether no value is there. -/
lemma Inv.isEmpty_iff (hN : ∃ k < 64, N = 2 ^ k) (h : Inv N pushed popped s) :
    s.tail = BitVec.ofNat 64 popped.length ↔ pushed.length = popped.length := by
  rw [h.tail_eq]
  constructor
  · exact RingIndex.eq_of_ofNat_eq h.popped_le (h.lt_word hN)
  · intro heq
    rw [heq]

/-- What the consumer knows stays true when a value is pushed. -/
private lemma ConsumerInv.push {pc : Consumer α} (h : ConsumerInv pushed popped pc) (val : α) :
    ConsumerInv (pushed ++ [val]) popped pc := by
  cases pc with
  | idle => trivial
  | loadTail head => exact h
  | readSlot head =>
    obtain ⟨hhead, hlt⟩ := h
    exact ⟨hhead, by rw [List.length_append]; exact Nat.lt_add_right _ hlt⟩
  | storeHead head v =>
    obtain ⟨hhead, hval⟩ := h
    exact ⟨hhead, RingIndex.getElem?_append_of_eq_some hval _⟩

/-- What the producer knows stays true when a value is popped. -/
private lemma ProducerInv.pop {buffer : ℕ → α} {pc : Producer α}
    (h : ProducerInv N pushed popped buffer pc) (val : α) :
    ProducerInv N pushed (popped ++ [val]) buffer pc := by
  cases pc with
  | idle => trivial
  | loadHead v tail => exact h
  | writeSlot v tail =>
    obtain ⟨htail, hroom⟩ := h
    exact ⟨htail, by rw [List.length_append]; omega⟩
  | storeTail v tail =>
    obtain ⟨htail, hroom, hheld⟩ := h
    exact ⟨htail, by rw [List.length_append]; omega, hheld⟩

/-- A step of the producer keeps the invariant. -/
lemma Inv.produce (hN : ∃ k < 64, N = 2 ^ k) (h : Inv N pushed popped s) (val : α) :
    Inv N (pushed ++ s.producer.publishes) popped (produce N s val) := by
  cases hp : s.producer with
  | idle =>
    simp only [Interleaved.produce, hp, Producer.publishes, List.append_nil]
    exact { h with producer := h.tail_eq }
  | loadHead v tail =>
    have htail : ProducerInv N pushed popped s.buffer (.loadHead v tail) := hp ▸ h.producer
    simp only [ProducerInv] at htail
    simp only [Interleaved.produce, hp, Producer.publishes, List.append_nil]
    split_ifs with hfull
    · exact { h with producer := trivial }
    · rw [htail, h.isFull_iff hN] at hfull
      exact { h with producer := ⟨htail, lt_of_le_of_ne h.pushed_le hfull⟩ }
  | writeSlot v tail =>
    obtain ⟨htail, hroom⟩ : ProducerInv N pushed popped s.buffer (.writeSlot v tail) :=
      hp ▸ h.producer
    simp only [Interleaved.produce, hp, Producer.publishes, List.append_nil]
    rw [htail, slot_length hN]
    refine { h with
      held := ?_
      producer := ⟨rfl, hroom, Function.update_self ..⟩ }
    intro n w hn hw
    dsimp only
    have hlt : n < pushed.length := (List.getElem?_eq_some_iff.mp hw).1
    -- the slot written is that of the next push, which no value held shares
    have hne : n % N ≠ pushed.length % N := RingIndex.mod_ne_mod hlt (by omega)
    rw [Function.update_of_ne hne]
    exact h.held n w hn hw
  | storeTail v tail =>
    obtain ⟨htail, hroom, hval⟩ : ProducerInv N pushed popped s.buffer (.storeTail v tail) :=
      hp ▸ h.producer
    simp only [Interleaved.produce, hp, Producer.publishes]
    have hlen : (pushed ++ [v]).length = pushed.length + 1 := by simp
    constructor
    · simp [htail, BitVec.ofNat_add]
    · exact h.head_eq
    · rw [List.take_append_of_le_length h.popped_le]
      exact h.popped_eq
    · rw [hlen]
      exact h.popped_le.trans (Nat.le_succ _)
    · rw [hlen]
      exact hroom
    · intro n w hn hw
      rcases RingIndex.getElem?_concat_eq_some hw with hw | ⟨rfl, rfl⟩
      · exact h.held n w hn hw
      · exact hval
    · trivial
    · exact h.consumer.push v

/-- A step of the consumer keeps the invariant. -/
lemma Inv.consume (hN : ∃ k < 64, N = 2 ^ k) (h : Inv N pushed popped s) :
    Inv N pushed (popped ++ s.consumer.takes) (consume N s) := by
  cases hc : s.consumer with
  | idle =>
    simp only [Interleaved.consume, hc, Consumer.takes, List.append_nil]
    exact { h with consumer := h.head_eq }
  | loadTail head =>
    have hhead : ConsumerInv pushed popped (.loadTail head) := hc ▸ h.consumer
    simp only [Interleaved.consume, hc, Consumer.takes, List.append_nil]
    split_ifs with hempty
    · exact { h with consumer := trivial }
    · rw [hhead, h.isEmpty_iff hN] at hempty
      exact { h with consumer := ⟨hhead, lt_of_le_of_ne h.popped_le (Ne.symm hempty)⟩ }
  | readSlot head =>
    obtain ⟨hhead, hlt⟩ : ConsumerInv pushed popped (.readSlot head) := hc ▸ h.consumer
    simp only [Interleaved.consume, hc, Consumer.takes, List.append_nil]
    refine { h with consumer := ⟨hhead, ?_⟩ }
    rw [hhead, slot_length hN, h.held _ _ le_rfl (List.getElem?_eq_getElem hlt),
      List.getElem?_eq_getElem hlt]
  | storeHead head v =>
    obtain ⟨hhead, hval⟩ : ConsumerInv pushed popped (.storeHead head v) := hc ▸ h.consumer
    have hlt : popped.length < pushed.length := (List.getElem?_eq_some_iff.mp hval).1
    have hlen : (popped ++ [v]).length = popped.length + 1 := by simp
    simp only [Interleaved.consume, hc, Consumer.takes]
    refine ⟨h.tail_eq, ?_, ?_, ?_, ?_, ?_, h.producer.pop v, trivial⟩
    · simp [hhead, BitVec.ofNat_add]
    · rw [hlen, List.take_add_one, ← h.popped_eq, hval]
      rfl
    · rw [hlen]
      exact hlt
    · have hroom := h.pushed_le
      rw [hlen]
      omega
    · intro n w hn hw
      rw [hlen] at hn
      exact h.held n w (by omega) hw

end Step

/-! ## The calls and their results -/

/-- Calls that have not returned do not count. -/
private lemma acceptedBy_append {done : List α} {results : List Bool}
    (h : done.length = results.length) (args : List α) :
    acceptedBy (done ++ args) results = acceptedBy done results := by
  have hzip : (done ++ args).zip (results ++ []) = done.zip results ++ args.zip [] :=
    List.zip_append h
  rw [List.append_nil, List.zip_nil_right, List.append_nil] at hzip
  rw [acceptedBy, hzip, acceptedBy]

/-- A push that returns `true` is accepted, one that returns `false` is not. -/
private lemma acceptedBy_concat {done : List α} {results : List Bool}
    (h : done.length = results.length) (val : α) (result : Bool) :
    acceptedBy (done ++ [val]) (results ++ [result]) =
      acceptedBy done results ++ if result then [val] else [] := by
  rw [acceptedBy, List.zip_append h, List.filter_append, List.map_append, ← acceptedBy]
  cases result <;> rfl

/-- Every call has returned but those in progress, whose argument is the one that was given. -/
structure Calls (o : Observed α) : Prop where
  pushes : ∃ done : List α, o.pushArgs = done ++ o.state.producer.arg?.toList ∧
    done.length = o.state.pushResults.length
  pops : o.popCalls = o.state.popResults.length + o.state.consumer.inCall

section Calls

variable {N : ℕ} {o : Observed α}

/-- A step of the producer keeps the account of the calls, and publishes the argument of its push
when it returns `true`. -/
private lemma Calls.produce (h : Calls o) (val : α) :
    Calls (o.step N (.produce val)) ∧
      (o.step N (.produce val)).accepted = o.accepted ++ o.state.producer.publishes := by
  obtain ⟨done, hargs, hlen⟩ := h.pushes
  have haccepted : o.accepted = acceptedBy done o.state.pushResults := by
    rw [Observed.accepted, hargs, acceptedBy_append hlen]
  cases hp : o.state.producer with
  | idle =>
    rw [hp] at hargs
    have hdone : o.pushArgs = done := hargs.trans (List.append_nil done)
    have hstep : o.step N (.produce val) =
        { o with
          state := { o.state with producer := .loadHead val o.state.tail }
          pushArgs := o.pushArgs ++ [val] } := by
      simp [Observed.step, step, Interleaved.produce, hp]
    rw [hstep]
    refine ⟨⟨⟨done, by simp [hdone, Producer.arg?], hlen⟩, h.pops⟩, ?_⟩
    simp only [Observed.accepted, hdone, Producer.publishes, List.append_nil]
    exact acceptedBy_append hlen _
  | loadHead v tail =>
    rw [hp] at hargs
    have hargs' : o.pushArgs = done ++ [v] := hargs
    by_cases hfull : (tail - o.state.head).toNat = N
    · have hstep : o.step N (.produce val) =
          { o with
            state :=
              { o.state with
                producer := .idle
                pushResults := o.state.pushResults ++ [false] } } := by
        simp [Observed.step, step, Interleaved.produce, hp, hfull, -BitVec.toNat_sub]
      rw [hstep, haccepted]
      refine ⟨⟨⟨done ++ [v], by simp [hargs', Producer.arg?], by simp [hlen]⟩, h.pops⟩, ?_⟩
      rw [Observed.accepted, hargs']
      exact acceptedBy_concat hlen v false
    · have hstep : o.step N (.produce val) =
          { o with state := { o.state with producer := .writeSlot v tail } } := by
        simp [Observed.step, step, Interleaved.produce, hp, hfull, -BitVec.toNat_sub]
      rw [hstep]
      exact ⟨⟨⟨done, hargs, hlen⟩, h.pops⟩, (List.append_nil _).symm⟩
  | writeSlot v tail =>
    rw [hp] at hargs
    have hstep : o.step N (.produce val) =
        { o with
          state :=
            { o.state with
              producer := .storeTail v tail
              buffer := Function.update o.state.buffer (slot N tail) v } } := by
      simp [Observed.step, step, Interleaved.produce, hp]
    rw [hstep]
    exact ⟨⟨⟨done, hargs, hlen⟩, h.pops⟩, (List.append_nil _).symm⟩
  | storeTail v tail =>
    rw [hp] at hargs
    have hargs' : o.pushArgs = done ++ [v] := hargs
    have hstep : o.step N (.produce val) =
        { o with
          state :=
            { o.state with
              producer := .idle
              tail := tail + 1
              pushResults := o.state.pushResults ++ [true] } } := by
      simp [Observed.step, step, Interleaved.produce, hp]
    rw [hstep, haccepted]
    refine ⟨⟨⟨done ++ [v], by simp [hargs', Producer.arg?], by simp [hlen]⟩, h.pops⟩, ?_⟩
    rw [Observed.accepted, hargs']
    exact acceptedBy_concat hlen v true

/-- A step of the consumer keeps the account of the calls, and returns the value that it takes. -/
private lemma Calls.consume (h : Calls o) :
    Calls (o.step N .consume) ∧
      (o.step N .consume).popped = o.popped ++ o.state.consumer.takes := by
  have hpops := h.pops
  cases hc : o.state.consumer with
  | idle =>
    rw [hc] at hpops
    have hstep : o.step N .consume =
        { o with
          state := { o.state with consumer := .loadTail o.state.head }
          popCalls := o.popCalls + 1 } := by
      simp [Observed.step, step, Interleaved.consume, hc]
    rw [hstep]
    exact ⟨⟨h.pushes, congrArg (· + 1) hpops⟩, (List.append_nil _).symm⟩
  | loadTail head =>
    rw [hc] at hpops
    by_cases hempty : o.state.tail = head
    · have hstep : o.step N .consume =
          { o with
            state :=
              { o.state with
                consumer := .idle
                popResults := o.state.popResults ++ [none] } } := by
        simp [Observed.step, step, Interleaved.consume, hc, hempty]
      rw [hstep]
      refine ⟨⟨h.pushes, by simpa [Consumer.inCall] using hpops⟩, ?_⟩
      simp [Observed.popped, Consumer.takes, List.reduceOption_append]
    · have hstep : o.step N .consume =
          { o with state := { o.state with consumer := .readSlot head } } := by
        simp [Observed.step, step, Interleaved.consume, hc, hempty]
      rw [hstep]
      exact ⟨⟨h.pushes, hpops⟩, (List.append_nil _).symm⟩
  | readSlot head =>
    rw [hc] at hpops
    have hstep : o.step N .consume =
        { o with
          state :=
            { o.state with consumer := .storeHead head (o.state.buffer (slot N head)) } } := by
      simp [Observed.step, step, Interleaved.consume, hc]
    rw [hstep]
    exact ⟨⟨h.pushes, hpops⟩, (List.append_nil _).symm⟩
  | storeHead head v =>
    rw [hc] at hpops
    have hstep : o.step N .consume =
        { o with
          state :=
            { o.state with
              consumer := .idle
              head := head + 1
              popResults := o.state.popResults ++ [some v] } } := by
      simp [Observed.step, step, Interleaved.consume, hc]
    rw [hstep]
    refine ⟨⟨h.pushes, by simpa [Consumer.inCall] using hpops⟩, ?_⟩
    simp [Observed.popped, Consumer.takes, List.reduceOption_append]

/-! ## The queue is a lossless bounded FIFO -/

/-- What holds of the calls and of the shared state, for the values that the calls pushed and
popped. -/
structure Observed.Inv (N : ℕ) (o : Observed α) : Prop where
  calls : Calls o
  state : Interleaved.Inv N o.accepted o.popped o.state

lemma observed_inv_start (N : ℕ) (uninit : ℕ → α) : (start uninit).Inv N where
  calls := ⟨⟨[], rfl, rfl⟩, rfl⟩
  state :=
    { tail_eq := rfl
      head_eq := rfl
      popped_eq := rfl
      popped_le := Nat.zero_le _
      pushed_le := Nat.zero_le _
      held := fun n val _ h => by simp [start, Observed.accepted, acceptedBy] at h
      producer := trivial
      consumer := trivial }

/-- A step of the producer leaves the values popped alone, one of the consumer those pushed. -/
private lemma popped_produce (o : Observed α) (val : α) :
    (o.step N (.produce val)).popped = o.popped := by
  simp only [Observed.popped, Observed.step, step, Interleaved.produce]
  split
  · rfl
  · split_ifs <;> rfl
  · rfl
  · rfl

private lemma accepted_consume (o : Observed α) :
    (o.step N .consume).accepted = o.accepted := by
  have hargs : (o.step N .consume).pushArgs = o.pushArgs := by
    cases hp : o.state.producer <;> simp [Observed.step, hp]
  have hresults : (o.step N .consume).state.pushResults = o.state.pushResults := by
    simp only [Observed.step, step, Interleaved.consume]
    split
    · rfl
    · split_ifs <;> rfl
    · rfl
    · rfl
  rw [Observed.accepted, hargs, hresults, Observed.accepted]

/-- Every step keeps the invariant. -/
lemma Observed.Inv.step (hN : ∃ k < 64, N = 2 ^ k) (h : o.Inv N) (action : Action α) :
    (o.step N action).Inv N := by
  cases action with
  | produce val =>
    obtain ⟨hcalls, haccepted⟩ := h.calls.produce (N := N) val
    refine ⟨hcalls, ?_⟩
    rw [haccepted, popped_produce]
    exact h.state.produce hN val
  | consume =>
    obtain ⟨hcalls, hpopped⟩ := h.calls.consume (N := N)
    refine ⟨hcalls, ?_⟩
    rw [hpopped, accepted_consume]
    exact h.state.consume hN

/-- The invariant says all there is to say. -/
lemma Observed.Inv.lossless (hN : ∃ k < 64, N = 2 ^ k) (h : o.Inv N) : Lossless N o := by
  have hstate := h.state
  constructor
  · obtain ⟨done, hargs, hlen⟩ := h.calls.pushes
    rw [hargs, List.length_append, hlen]
  · exact h.calls.pops
  · rw [hstate.popped_eq]
    exact List.take_prefix _ _
  · exact hstate.held
  · intro val tail hp n hn hlt
    obtain ⟨htail, hroom⟩ : ProducerInv N o.accepted o.popped o.state.buffer
        (.writeSlot val tail) := hp ▸ hstate.producer
    rw [htail, slot_length hN]
    exact RingIndex.mod_ne_mod hlt (by omega)
  · intro val hfail
    cases hp : o.state.producer with
    | loadHead v tail =>
      have htail : ProducerInv N o.accepted o.popped o.state.buffer (.loadHead v tail) :=
        hp ▸ hstate.producer
      simp only [ProducerInv] at htail
      simp only [Observed.step, Interleaved.step, Interleaved.produce, hp] at hfail
      split_ifs at hfail with hfull
      · rw [htail, hstate.isFull_iff hN] at hfull
        exact hfull
      · simp at hfail
    | _ => simp [Observed.step, Interleaved.step, Interleaved.produce, hp] at hfail
  · intro hfail
    cases hc : o.state.consumer with
    | loadTail head =>
      have hhead : ConsumerInv o.accepted o.popped (.loadTail head) := hc ▸ hstate.consumer
      simp only [ConsumerInv] at hhead
      simp only [Observed.step, Interleaved.step, Interleaved.consume, hc] at hfail
      split_ifs at hfail with hempty
      · rw [hhead, hstate.isEmpty_iff hN] at hempty
        exact hempty
      · simp at hfail
    | _ => simp [Observed.step, Interleaved.step, Interleaved.consume, hc] at hfail

end Calls

/-- The invariant holds in every state of every interleaving. -/
theorem inv_run {N : ℕ} (hN : ∃ k < 64, N = 2 ^ k) (uninit : ℕ → α) (actions : List (Action α)) :
    (Transition.run (Observed.step N) (start uninit) actions).Inv N :=
  Transition.invariant_run_of_step (fun _ action h => h.step hN action)
    (observed_inv_start N uninit) actions

/-- **Lossless bounded FIFO.**  For every power of two `N`, in every state of every interleaving of
one producer and one consumer, every call has returned but those in progress, the values popped are
the first of the values pushed, those in between are in their slots, no slot is written while it
holds one of them, and a push or a pop fails only when the queue was full or empty at the moment of
its test. -/
theorem bounded_fifo_run {N : ℕ} (hN : ∃ k < 64, N = 2 ^ k) (uninit : ℕ → α)
    (actions : List (Action α)) :
    Lossless N (Transition.run (Observed.step N) (start uninit) actions) :=
  (inv_run hN uninit actions).lossless hN

/-- A push into a queue of one slot, a push that finds it full, and a pop in between. -/
def oneSlotActions : List (Action ℕ) :=
  [.produce 5, .produce 5, .consume, .produce 5, .produce 5, .produce 6, .produce 6, .consume,
    .consume, .consume]

theorem bounded_fifo_run_oneSlot :
    let o := Transition.run (Observed.step 1) (start fun _ => 0) oneSlotActions
    o.pushArgs = [5, 6] ∧ o.accepted = [5] ∧ o.popped = [5] ∧ Lossless 1 o :=
  ⟨by decide, by decide, by decide, bounded_fifo_run ⟨0, by decide, rfl⟩ _ _⟩

/-! ## Calls that nobody disturbs -/

section Alone

variable {N : ℕ} {pushed popped : List α} {s : State α}

/-- The queue between two calls. -/
def queue (hN : ∃ k < 64, N = 2 ^ k) (h : Inv N pushed popped s) : SPSCQueue α N where
  tail := s.tail
  head := s.head
  buffer := s.buffer
  pow_two := hN
  size_le := by
    have hroom := h.pushed_le
    rw [h.toNat_sub hN]
    omega

/-- What the queue holds are the values pushed and not popped. -/
theorem contents_queue (hN : ∃ k < 64, N = 2 ^ k) (h : Inv N pushed popped s) :
    (queue hN h).contents = pushed.drop popped.length := by
  have hsize : (queue hN h).size = pushed.length - popped.length := h.toNat_sub hN
  have hle := h.popped_le
  apply List.ext_getElem
  · rw [length_contents, hsize, List.length_drop]
  · intro i hi _
    have hi' : popped.length + i < pushed.length := by
      rw [length_contents, hsize] at hi
      omega
    have hheld := h.held _ _ (Nat.le_add_right _ _) (List.getElem?_eq_getElem hi')
    have hslot : slot N (s.head + BitVec.ofNat 64 i) = (popped.length + i) % N := by
      rw [h.head_eq, ← BitVec.ofNat_add, slot, RingIndex.and_mask_ofNat hN]
    have hread : (queue hN h).contents[i] =
        s.buffer (slot N (s.head + BitVec.ofNat 64 i)) := by
      simp [contents, queue]
    rw [List.getElem_drop, hread, hslot, hheld]

/-- **One producer alone.**  The operations of a push that nobody disturbs come to the push that is
made at once. -/
theorem produce_alone (hN : ∃ k < 64, N = 2 ^ k) (h : Inv N pushed popped s)
    (hidle : s.producer = .idle) (val : α) :
    ∃ n, let s' := (fun s => produce N s val)^[n] s
      let q := (queue hN h).push val
      s'.producer = .idle ∧ s'.tail = q.1.tail ∧ s'.head = q.1.head ∧ s'.buffer = q.1.buffer ∧
        s'.pushResults = s.pushResults ++ [q.2] := by
  by_cases hfull : (s.tail - s.head).toNat = N
  · exact ⟨2, by simp [produce, hidle, queue, push, hfull, -BitVec.toNat_sub]⟩
  · exact ⟨4, by simp [produce, hidle, queue, push, hfull, -BitVec.toNat_sub]⟩

/-- **One consumer alone.** -/
theorem consume_alone (hN : ∃ k < 64, N = 2 ^ k) (h : Inv N pushed popped s)
    (hidle : s.consumer = .idle) :
    ∃ n, let s' := (consume N)^[n] s
      let q := (queue hN h).pop
      s'.consumer = .idle ∧ s'.tail = q.2.tail ∧ s'.head = q.2.head ∧ s'.buffer = q.2.buffer ∧
        s'.popResults = s.popResults ++ [q.1] := by
  by_cases hempty : s.tail = s.head
  · exact ⟨2, by simp [consume, hidle, queue, pop, hempty]⟩
  · exact ⟨4, by simp [consume, hidle, queue, pop, hempty]⟩

end Alone

end Interleaved

end SPSCQueue

end QuantTrade
