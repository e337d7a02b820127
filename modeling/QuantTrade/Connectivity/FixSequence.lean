import QuantTrade.Connectivity.FixConnection

/-!
# The sequence numbers of a FIX session

`write_header` takes a number for every message that is encoded, before it is known whether the
message is sent at all.  The messages that the socket took in full are numbered without gaps
exactly when none was lost before them (`sequence_iff`).
-/

namespace QuantTrade

namespace FIXConnection

/-! ## What was transmitted -/

/-- A message that was encoded: its number, its bytes, and whether the socket took all of it. -/
structure Encoded where
  number : ℕ
  bytes : List UInt8
  complete : Bool
  deriving DecidableEq, Repr

/-- The message of an event. -/
def encodedOf : Event → Option Encoded
  | .sent number bytes complete => some ⟨number, bytes, complete⟩
  | _ => none

variable (c : FIXConnection)

/-- The messages that were encoded, in order. -/
def messages : List Encoded :=
  c.events.filterMap encodedOf

/-- The numbers of the messages that were transmitted in full, in order. -/
def numbers : List ℕ :=
  (c.messages.filter Encoded.complete).map Encoded.number

/-- How many messages were encoded and not transmitted in full. -/
def losses : ℕ :=
  c.messages.countP fun m => !m.complete

/-- The numbers are consecutive, from 1 on. -/
def Consecutive : Prop :=
  c.numbers = List.range' 1 c.numbers.length

instance : Decidable c.Consecutive :=
  inferInstanceAs (Decidable (_ = _))

/-- A message that the call gets through comes after no loss, as far as the 32 bits of the counter
can tell, and the counter does not run over. -/
def NoLossBefore (a : Action) : Prop :=
  ∀ t ∈ c.attempt a, t.Complete → c.losses % 2 ^ 32 = 0 ∧ c.numbers.length + 1 < 2 ^ 32

/-- The counter is ahead of the messages that were transmitted by those that were lost. -/
structure Counted (c : FIXConnection) : Prop where
  consecutive : c.Consecutive
  length_lt : c.numbers.length < 2 ^ 32
  msgSeqNum : c.sender.msgSeqNum = (1 + c.numbers.length + c.losses) % 2 ^ 32

variable {c} {a : Action}

/-- The message of an attempt. -/
def Attempt.encoded (t : Attempt) : Encoded :=
  ⟨t.number, t.bytes, t.Complete⟩

/-- A call encodes the message of its attempt and no other. -/
lemma messages_step (c : FIXConnection) (a : Action) :
    (c.step a).messages = c.messages ++ ((c.attempt a).map Attempt.encoded).toList := by
  rw [messages, events_step, List.filterMap_append, messages]
  congr 1
  cases a with
  | connect outcome => cases outcome <;> rfl
  | disconnect answer =>
    unfold newEvents attempt
    split_ifs <;> rfl
  | sendNewOrder _ _ => rfl
  | sendCancel _ _ => rfl
  | sendModify _ _ => rfl
  | receive mem buf len =>
    have hnone (msgType : Option UInt8) : (storedBy msgType).filterMap encodedOf = [] := by
      unfold storedBy
      split_ifs <;> rfl
    exact hnone _
  | lose => rfl

/-- What a call offers to the socket is one of the messages, in the buffer it is encoded into. -/
lemma exists_offer_of_mem_attempt {t : Attempt} (ht : t ∈ c.attempt a) :
    ∃ (m : OutMessage) (cap : ℕ) (sockfd : ℤ) (answer : Option ℕ),
      m.buffer = some cap ∧ t = c.offer m cap sockfd answer := by
  cases a with
  | connect outcome =>
    cases outcome with
    | connected fd answer => exact ⟨.logon, 512, fd, answer, rfl, (Option.some.inj ht).symm⟩
    | socketFails => cases ht
    | addressFails => cases ht
    | connectFails => cases ht
  | disconnect answer =>
    unfold attempt at ht
    split_ifs at ht
    · exact ⟨.logout, 256, c.sender.sockfd, answer, rfl, (Option.some.inj ht).symm⟩
    · cases ht
  | sendNewOrder req answer =>
    exact ⟨.newOrder req, 512, c.sender.sockfd, answer, rfl, (Option.some.inj ht).symm⟩
  | sendCancel id answer =>
    exact ⟨.cancel id, 256, c.sender.sockfd, answer, rfl, (Option.some.inj ht).symm⟩
  | sendModify req answer =>
    exact ⟨.modify req, 512, c.sender.sockfd, answer, rfl, (Option.some.inj ht).symm⟩
  | receive _ _ _ => cases ht
  | lose => cases ht

/-- The number of an attempt is that of the counter. -/
lemma number_of_mem_attempt {t : Attempt} (ht : t ∈ c.attempt a) :
    t.number = c.sender.msgSeqNum := by
  obtain ⟨m, cap, sockfd, answer, -, rfl⟩ := exists_offer_of_mem_attempt ht
  rfl

/-- How a call changes the counts. -/
lemma counts_step (c : FIXConnection) (a : Action) :
    (c.attempt a = none ∧ (c.step a).numbers = c.numbers ∧ (c.step a).losses = c.losses ∧
        (c.step a).sender.msgSeqNum = c.sender.msgSeqNum) ∨
      ∃ t, c.attempt a = some t ∧
        (c.step a).sender.msgSeqNum = (c.sender.msgSeqNum + 1) % 2 ^ 32 ∧
        ((t.Complete ∧ (c.step a).numbers = c.numbers ++ [c.sender.msgSeqNum] ∧
            (c.step a).losses = c.losses) ∨
          (¬t.Complete ∧ (c.step a).numbers = c.numbers ∧
            (c.step a).losses = c.losses + 1)) := by
  obtain ⟨sockfd, hsender⟩ := sender_step (c := c) a
  have hmessages := messages_step c a
  cases hattempt : c.attempt a with
  | none =>
    rw [hattempt] at hsender hmessages
    rw [Option.map_none, Option.toList_none, List.append_nil] at hmessages
    refine Or.inl ⟨rfl, ?_, ?_, ?_⟩
    · rw [numbers, hmessages, numbers]
    · rw [losses, hmessages, losses]
    · rw [hsender]
      rfl
  | some t =>
    have hnumber := number_of_mem_attempt hattempt
    rw [hattempt] at hsender hmessages
    rw [Option.map_some, Option.toList_some] at hmessages
    refine Or.inr ⟨t, rfl, ?_, ?_⟩
    · rw [hsender]
      rfl
    · by_cases hcomplete : t.Complete
      · refine Or.inl ⟨hcomplete, ?_, ?_⟩
        · simp [numbers, hmessages, Attempt.encoded, hcomplete, hnumber]
        · simp [losses, hmessages, Attempt.encoded, hcomplete]
      · refine Or.inr ⟨hcomplete, ?_, ?_⟩
        · simp [numbers, hmessages, Attempt.encoded, hcomplete]
        · simp [losses, hmessages, Attempt.encoded, hcomplete]

lemma numbers_step_of_complete {t : Attempt} (ht : c.attempt a = some t) (hcomplete : t.Complete) :
    (c.step a).numbers = c.numbers ++ [c.sender.msgSeqNum] := by
  rcases counts_step c a with ⟨hnone, -⟩ | ⟨t', ht', -, ⟨-, hnumbers, -⟩ | ⟨hincomplete, -⟩⟩
  · rw [hnone] at ht
    cases ht
  · exact hnumbers
  · obtain rfl := Option.some.inj (ht.symm.trans ht')
    exact absurd hcomplete hincomplete

/-! ## Gaps -/

/-- A call after which nothing that was lost matters keeps the count. -/
lemma Counted.step (h : c.Counted) (ha : c.NoLossBefore a) : (c.step a).Counted := by
  obtain ⟨hconsecutive, hlt, hseq⟩ := h
  rcases counts_step c a with ⟨-, hnumbers, hlosses, hnext⟩ |
    ⟨t, hattempt, hnext, ⟨hcomplete, hnumbers, hlosses⟩ | ⟨-, hnumbers, hlosses⟩⟩
  · refine ⟨?_, ?_, ?_⟩
    · rw [Consecutive, hnumbers]
      exact hconsecutive
    · rw [hnumbers]
      exact hlt
    · rw [hnext, hnumbers, hlosses]
      exact hseq
  · obtain ⟨hnone, hroom⟩ := ha t hattempt hcomplete
    have hnumber : c.sender.msgSeqNum = 1 + c.numbers.length := by omega
    have hlength : (c.step a).numbers.length = c.numbers.length + 1 := by simp [hnumbers]
    refine ⟨?_, ?_, ?_⟩
    · rw [Consecutive, hlength, List.range'_concat, ← hconsecutive, hnumbers, hnumber, one_mul]
    · rw [hlength]
      exact hroom
    · rw [hnext, hlength, hlosses]
      omega
  · refine ⟨?_, ?_, ?_⟩
    · rw [Consecutive, hnumbers]
      exact hconsecutive
    · rw [hnumbers]
      exact hlt
    · rw [hnext, hnumbers, hlosses]
      omega

/-- A message that gets through after a loss leaves a gap. -/
lemma Counted.not_consecutive_step (h : c.Counted) (ha : ¬c.NoLossBefore a) :
    ¬(c.step a).Consecutive := by
  obtain ⟨hconsecutive, hlt, hseq⟩ := h
  unfold NoLossBefore at ha
  push Not at ha
  obtain ⟨t, hattempt, hcomplete, hloss⟩ := ha
  have hnumbers := numbers_step_of_complete hattempt hcomplete
  have hlength : (c.step a).numbers.length = c.numbers.length + 1 := by simp [hnumbers]
  intro hstep
  rw [Consecutive, hlength, List.range'_concat, ← hconsecutive, hnumbers] at hstep
  have hnumber := List.cons.inj (List.append_cancel_left hstep)
  omega

/-! ## The numbers in the bytes -/

/-- With names that leave room, the number of every message can be read from its bytes. -/
structure Readable (c : FIXConnection) : Prop where
  named : c.sender.WellNamed
  bytes : ∀ m ∈ c.messages, (fixValue m.bytes 34).map readDecimal = some m.number

/-- A message that is offered carries the number of the counter. -/
lemma fixValue_of_mem_attempt (hs : c.sender.WellNamed) {t : Attempt} (ht : t ∈ c.attempt a) :
    (fixValue t.bytes 34).map readDecimal = some t.number := by
  obtain ⟨m, cap, sockfd, answer, hbuffer, rfl⟩ := exists_offer_of_mem_attempt ht
  rw [offer, OutMessage.fixValue_msgSeqNum hs hbuffer, Option.map_some, readDecimal_decimal]

lemma Readable.step (h : c.Readable) (a : Action) : (c.step a).Readable := by
  obtain ⟨hnamed, hbytes⟩ := h
  obtain ⟨sockfd, hsender⟩ := sender_step (c := c) a
  constructor
  · rw [hsender]
    cases c.attempt a with
    | none => exact ⟨hnamed.sender, hnamed.target, hnamed.room, hnamed.seq⟩
    | some t => exact ⟨hnamed.sender, hnamed.target, hnamed.room, Nat.mod_lt _ (by decide)⟩
  · intro m hm
    rw [messages_step, List.mem_append] at hm
    rcases hm with hm | hm
    · exact hbytes m hm
    · obtain ⟨t, ht, rfl⟩ := Option.map_eq_some_iff.mp (Option.mem_toList.mp hm)
      exact fixValue_of_mem_attempt hnamed ht

lemma counted_init (senderComp targetComp : List UInt8) (version : FIXVersion)
    (ackCb fillCb : Bool) (rdtscNs : ℕ → ℕ) :
    (init senderComp targetComp version ackCb fillCb rdtscNs).Counted :=
  ⟨rfl, show 0 < 2 ^ 32 by decide, rfl⟩

/-- **Sequence numbers.**  In a run of a new session, whatever the names, the messages transmitted
in full are numbered consecutively from 1 on, after every part of the run, exactly when each of them
comes after no loss and the counter does not run over.  With names that leave room these numbers
are the values of tag 34 in the bytes. -/
theorem sequence_iff (senderComp targetComp : List UInt8) (version : FIXVersion)
    (ackCb fillCb : Bool) (rdtscNs : ℕ → ℕ) (as : List Action) :
    ((∀ bs, bs <+: as → (Transition.run step
          (init senderComp targetComp version ackCb fillCb rdtscNs) bs).Consecutive) ↔
        Transition.Admissible step NoLossBefore
          (init senderComp targetComp version ackCb fillCb rdtscNs) as) ∧
      (soh ∉ senderComp → soh ∉ targetComp → senderComp.length + targetComp.length ≤ 134 →
        ∀ m ∈ (Transition.run step
          (init senderComp targetComp version ackCb fillCb rdtscNs) as).messages,
          (fixValue m.bytes 34).map readDecimal = some m.number) := by
  constructor
  · apply Transition.forall_prefix_iff_of_step (P := Counted)
    · intro c h
      exact h.consecutive
    · intro c a ha h
      exact h.step ha
    · intro c a ha h
      exact h.not_consecutive_step ha
    · exact counted_init ..
  · intro hsender htarget hroom
    have hinit : (init senderComp targetComp version ackCb fillCb rdtscNs).Readable :=
      ⟨⟨hsender, htarget, hroom, show 1 < 2 ^ 32 by decide⟩, by simp [messages, init]⟩
    exact (Transition.invariant_run_of_step (fun c a h => h.step a) hinit as).bytes

/-- The number of a Logon is read back. -/
theorem sequence_iff_logon :
    ∀ m ∈ (Transition.run step exampleConnection [.connect (.connected 3 (some 58))]).messages,
      (fixValue m.bytes 34).map readDecimal = some m.number :=
  (sequence_iff (ascii ['C']) (ascii ['B']) .fix42 true true (fun _ => 0)
    [.connect (.connected 3 (some 58))]).2 (by decide) (by decide) (by decide)

set_option maxRecDepth 2000 in
lemma length_encode_second :
    (OutMessage.logon.encode exampleConnection.sender.advance 512).length = 58 := by
  decide

/-- A cancel is sent before there is a connection.  The Logon of the connection is then the first
message that is transmitted, and it has the number 2. -/
theorem sequence_gap :
    (Transition.run step exampleConnection
        [.sendCancel 1 none, .connect (.connected 3 (some 58))]).numbers = [2] ∧
      ¬(Transition.run step exampleConnection
        [.sendCancel 1 none, .connect (.connected 3 (some 58))]).Consecutive := by
  have hcomplete : ((exampleConnection.step (.sendCancel 1 none)).offer .logon 512 (3 : ℕ)
      (some 58)).Complete :=
    complete_logon.mpr (congrArg some length_encode_second.symm)
  have hlost : (exampleConnection.step (.sendCancel 1 none)).numbers = [] := by
    rcases counts_step exampleConnection (.sendCancel 1 none) with ⟨hnone, -⟩ |
      ⟨t, ht, -, ⟨hsent, -⟩ | ⟨-, hnumbers, -⟩⟩
    · cases hnone
    · obtain rfl := Option.some.inj ht
      exact absurd hsent.1 (by decide)
    · exact hnumbers
  have hnumbers : (Transition.run step exampleConnection
      [.sendCancel 1 none, .connect (.connected 3 (some 58))]).numbers = [2] := by
    rw [Transition.run_cons, Transition.run_cons, Transition.run_nil,
      numbers_step_of_complete rfl hcomplete, hlost]
    rfl
  refine ⟨hnumbers, ?_⟩
  rw [Consecutive, hnumbers]
  decide

end FIXConnection

end QuantTrade
