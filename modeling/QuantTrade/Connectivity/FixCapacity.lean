import QuantTrade.Connectivity.FixFraming
import QuantTrade.Connectivity.OutgoingStream
import QuantTrade.Library.BoundedBuffer

/-!
# FIX messages and the capacity of their buffers

The encoders of `FIXSession` with the buffer of the caller as memory, where a store outside of it
fails.  Every append asks for its own room, so no store fails, and the bytes are those of the
encoders of lists (`OutMessage.writes_encode`).  The encoders carry on behind an append that found
no room, and their callers do not notice: a message that does not fit is sent with some of its
values missing (`OutMessage.complete_or_silent_iff`).
-/

namespace QuantTrade

open BoundedBuffer (Writes)

/-! ## Stores into the buffer -/

section Append

variable {cap : ℕ} (b : BoundedBuffer UInt8 cap)

/-- `fix_append_int`. -/
def fixAppendInt? (val : ℤ) : Option (BoundedBuffer UInt8 cap) :=
  let digits := decimalInt (val.bmod (2 ^ 64))
  if cap ≤ b.pos then some b
  else if cap ≤ b.pos + digits.length then some b
  else b.append? digits

/-- `fix_append_str`. -/
def fixAppendStr? (val : List UInt8) : Option (BoundedBuffer UInt8 cap) :=
  if cap ≤ b.pos + val.length then some b else b.append? val

/-- `if (pos < cap) buf[pos++] = c`. -/
def fixAppendChar? (c : UInt8) : Option (BoundedBuffer UInt8 cap) :=
  if b.pos < cap then b.push? c else some b

/-- `fix_append_field`. -/
def fixAppendField? (tag : ℕ) (val : ℤ) : Option (BoundedBuffer UInt8 cap) := do
  let b ← fixAppendInt? b tag
  let b ← fixAppendChar? b '='.toUInt8
  let b ← fixAppendInt? b val
  fixAppendChar? b soh

/-- `fix_append_field_str`. -/
def fixAppendFieldStr? (tag : ℕ) (val : List UInt8) : Option (BoundedBuffer UInt8 cap) := do
  let b ← fixAppendInt? b tag
  let b ← fixAppendChar? b '='.toUInt8
  let b ← fixAppendStr? b val
  fixAppendChar? b soh

/-- `finalize`. -/
def finalize? : Option (BoundedBuffer UInt8 cap) :=
  fixAppendFieldStr? b 10 (checksumDigits b.written)

/-- A number is appended like its text. -/
lemma fixAppendInt?_eq (val : ℤ) :
    fixAppendInt? b val = fixAppendStr? b (decimalInt (val.bmod (2 ^ 64))) := by
  have hpos := length_decimalInt_pos (val.bmod (2 ^ 64))
  unfold fixAppendInt? fixAppendStr?
  dsimp only
  split_ifs
  · rfl
  · omega
  · rfl
  · rfl

/-- A field with a number is appended like one with the text of the number. -/
lemma fixAppendField?_eq (tag : ℕ) (val : ℤ) :
    fixAppendField? b tag val = fixAppendFieldStr? b tag (decimalInt (val.bmod (2 ^ 64))) := by
  unfold fixAppendField? fixAppendFieldStr?
  simp only [fixAppendInt?_eq]

end Append

/-- `write_header`. -/
def FIXSender.writeHeader? {cap : ℕ} (s : FIXSender) (places : Vector UInt8 cap) (msgType : Char) :
    Option (BoundedBuffer UInt8 cap) := do
  let b ← fixAppendFieldStr? ⟨places, 0⟩ 8 s.beginString
  let b ← fixAppendFieldStr? b 9 (ascii ['0', '0', '0', '0', '0', '0'])
  let b ← b.storeBack? 7 0
  let b ← fixAppendFieldStr? b 35 (ascii [msgType])
  let b ← fixAppendFieldStr? b 49 s.senderComp
  let b ← fixAppendFieldStr? b 56 s.targetComp
  fixAppendField? b 34 s.msgSeqNum

/-- The encoder of a message: the header, the fields behind it one after the other, those with a
number by its text (`fixAppendField?_eq`), and the checksum. -/
def OutMessage.encode? {cap : ℕ} (s : FIXSender) (places : Vector UInt8 cap) (m : OutMessage) :
    Option (BoundedBuffer UInt8 cap) := do
  let b ← s.writeHeader? places m.msgType
  let b ← m.fields.foldlM (fun b field => fixAppendFieldStr? b field.1 field.2) b
  finalize? b

/-! ## No store fails -/

section Writes

variable {cap : ℕ} {b : BoundedBuffer UInt8 cap} {buf : List UInt8}

lemma writes_fixAppendStr (h : b.Contains buf) (val : List UInt8) :
    Writes (fixAppendStr? b val) (fixAppendStr cap buf val) := by
  unfold fixAppendStr? fixAppendStr
  rw [h.1]
  split_ifs with hfull
  · exact h.writes
  · exact h.append? (by omega)

lemma writes_fixAppendInt (h : b.Contains buf) (val : ℤ) :
    Writes (fixAppendInt? b val) (fixAppendInt cap buf val) := by
  rw [fixAppendInt?_eq, fixAppendInt_eq]
  exact writes_fixAppendStr h _

lemma writes_fixAppendChar (h : b.Contains buf) (c : UInt8) :
    Writes (fixAppendChar? b c) (fixAppendChar cap buf c) := by
  unfold fixAppendChar? fixAppendChar
  rw [h.1]
  split_ifs with hroom
  · exact h.push? hroom c
  · exact h.writes

lemma writes_fixAppendFieldStr (h : b.Contains buf) (tag : ℕ) (val : List UInt8) :
    Writes (fixAppendFieldStr? b tag val) (fixAppendFieldStr cap buf tag val) := by
  refine (writes_fixAppendInt h tag).bind fun b hb => ?_
  refine (writes_fixAppendChar hb _).bind fun b hb => ?_
  refine (writes_fixAppendStr hb val).bind fun b hb => ?_
  exact writes_fixAppendChar hb soh

lemma writes_fixAppendField (h : b.Contains buf) (tag : ℕ) (val : ℤ) :
    Writes (fixAppendField? b tag val) (fixAppendField cap buf tag val) := by
  rw [fixAppendField?_eq, fixAppendField_eq]
  exact writes_fixAppendFieldStr h tag _

lemma writes_finalize (h : b.Contains buf) : Writes (finalize? b) (finalize cap buf) := by
  unfold finalize? finalize
  rw [h.written_eq]
  exact writes_fixAppendFieldStr h 10 _

lemma FIXSender.writes_writeHeader (s : FIXSender) (places : Vector UInt8 cap) (msgType : Char)
    (hcap : 10 ≤ cap) : Writes (s.writeHeader? places msgType) (s.writeHeader cap msgType) := by
  have hempty := BoundedBuffer.contains_nil places
  have hversion := FIXSender.length_version_ge (s := s) hcap
  have hlength := length_le_fixAppendFieldStr cap (fixAppendFieldStr cap [] 8 s.beginString) 9
    (ascii ['0', '0', '0', '0', '0', '0'])
  refine (writes_fixAppendFieldStr hempty 8 _).bind fun b hb => ?_
  refine (writes_fixAppendFieldStr hb 9 _).bind fun b hb => ?_
  refine (hb.storeBack? (by omega) (by decide) 0).bind fun b hb => ?_
  refine (writes_fixAppendFieldStr hb 35 _).bind fun b hb => ?_
  refine (writes_fixAppendFieldStr hb 49 _).bind fun b hb => ?_
  refine (writes_fixAppendFieldStr hb 56 _).bind fun b hb => ?_
  exact writes_fixAppendField hb 34 _

end Writes

namespace OutMessage

variable {cap : ℕ} {s : FIXSender} {m : OutMessage}

/-- No encoder stores outside of its buffer, and the buffer contains the bytes of the encoder of
lists. -/
theorem writes_encode (places : Vector UInt8 cap) (hcap : 10 ≤ cap) :
    Writes (m.encode? s places) (m.encode s cap) := by
  rw [encode_eq]
  refine (s.writes_writeHeader places m.msgType hcap).bind fun b hb => ?_
  refine Writes.bind ?_ fun b hb => writes_finalize hb
  exact hb.foldlM (fun _ _ field h => writes_fixAppendFieldStr h field.1 field.2) m.fields

/-! ## Complete messages -/

/-- A message is encoded in full exactly when it fits. -/
lemma encode_eq_full_iff (hcap : 10 ≤ cap) :
    m.encode s cap = m.full s ↔ (m.full s).length ≤ cap := by
  constructor
  · intro heq
    obtain ⟨b, -, hb⟩ := writes_encode (m := m) (s := s) (Vector.replicate cap 0) hcap
    rw [← heq]
    exact hb.length_le
  · exact encode_of_room

/-- The session is silent about a message exactly when it has no socket. -/
lemma silent_iff (hcap : 10 ≤ cap) :
    (∀ answer, (s.sendRaw (m.encode s cap) answer).1 = []) ↔ s.sockfd < 0 := by
  have hne : m.encode s cap ≠ [] := by
    rw [encode_eq]
    exact FIXSender.finalize_appendFields_ne_nil _ _ hcap
  constructor
  · intro hsilent
    by_contra hopen
    have hall := hsilent (some (m.encode s cap).length)
    rw [FIXSender.sendRaw, if_neg (by simp [hopen, hne])] at hall
    exact hne (by simpa [kernelSend] using hall)
  · intro hclosed answer
    rw [FIXSender.sendRaw, if_pos (Or.inl hclosed)]

/-- **FIX messages and their buffers.**  No encoder stores outside of its buffer.  The bytes handed
to `send_raw` are the whole message, or nothing is sent, exactly when the whole message fits the
buffer or the session has no socket. -/
theorem complete_or_silent_iff (s : FIXSender) (m : OutMessage) (places : Vector UInt8 cap)
    (hcap : 10 ≤ cap) :
    (∃ b, m.encode? s places = some b ∧ b.Contains (m.encode s cap)) ∧
      ((m.encode s cap = m.full s ∨ ∀ answer, (s.sendRaw (m.encode s cap) answer).1 = []) ↔
        (m.full s).length ≤ cap ∨ s.sockfd < 0) := by
  obtain ⟨b, hsome, hb⟩ := writes_encode (m := m) (s := s) places hcap
  refine ⟨⟨b, hsome, hb⟩, ?_⟩
  rw [encode_eq_full_iff hcap, silent_iff hcap]

theorem complete_or_silent_logout :
    logout.encode exampleSession 256 = logout.full exampleSession ∨
      ∀ answer, (exampleSession.sendRaw (logout.encode exampleSession 256) answer).1 = [] :=
  (complete_or_silent_iff exampleSession logout (Vector.replicate 256 0) (by decide)).2.mpr
    (Or.inl (by decide))

/-- A session with a name that does not fit any buffer. -/
def longNamedSession : FIXSender where
  senderComp := List.replicate 600 'C'.toUInt8
  targetComp := ascii ['B']
  sockfd := 5

/-- A cancel of a session with a long name is sent without the name. -/
theorem cancel_sent_without_name :
    ¬((cancel 7).encode longNamedSession 256 = (cancel 7).full longNamedSession ∨
        ∀ answer,
          (longNamedSession.sendRaw ((cancel 7).encode longNamedSession 256) answer).1 = []) ∧
      fixValue ((cancel 7).encode longNamedSession 256) 49 = some [] := by
  refine ⟨?_, by decide +kernel⟩
  rw [encode_eq_full_iff (by decide), silent_iff (by decide)]
  decide +kernel

end OutMessage

end QuantTrade
