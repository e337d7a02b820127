import QuantTrade.Connectivity.FixMessage
import QuantTrade.Library.Transition

/-!
# The receive loop

`FIXSession::run`: what arrives is appended to the buffer, the buffer is cut at every separator,
and a piece that looks like the end of a message is handed to `parse_message`; what follows the
last separator is moved to the front of the buffer.  The pieces are single fields, so nothing that
is handed over is a message (`framed_iff_nil`), and no callback is ever called (`run_session`).
-/

namespace QuantTrade

/-- A byte of the buffer that was read, and how many bytes of data there were. -/
structure Read where
  index : ℕ
  rpos : ℕ
  deriving DecidableEq, Repr

/-- The local variables of `run`, with the bytes of every call of `parse_message` and every read of
the buffer by `run` itself. -/
structure Receiver where
  session : FIXSession
  rbuf : Memory
  rpos : ℕ
  calls : List (List UInt8)
  reads : List Read

namespace Receiver

/-- The start of `run`: the buffer is not initialized. -/
def start (session : FIXSession) (rbuf : Memory) : Receiver where
  session := session
  rbuf := rbuf
  rpos := 0
  calls := []
  reads := []

/-- Note the reads of some bytes. -/
def noteReads (r : Receiver) (indices : List ℕ) : Receiver :=
  { r with reads := r.reads ++ indices.map (⟨·, r.rpos⟩) }

/-- `memchr` for the separator: its distance from `first`. -/
def memchr (mem : Memory) (first n : ℕ) : Option ℕ :=
  (List.range n).find? fun k => mem (first + k) = soh

/-- `parsed + msg_len - back` in the arithmetic of `size_t`. -/
def sizeSub (parsed msgLen back : ℕ) : ℕ :=
  (parsed + msgLen + 2 ^ 64 - back) % 2 ^ 64

/-- A chain of `rbuf[index] == c` joined by `&&`. -/
def compareBytes (r : Receiver) : List (ℕ × UInt8) → Receiver × Bool
  | [] => (r, true)
  | (index, c) :: rest =>
    if r.rbuf index = c then (r.noteReads [index]).compareBytes rest
    else (r.noteReads [index], false)

/-- The bytes that `run` compares with those of `10=`. -/
def trailerBytes (parsed msgLen : ℕ) : List (ℕ × UInt8) :=
  [(sizeSub parsed msgLen 8, '1'.toUInt8), (sizeSub parsed msgLen 7, '0'.toUInt8),
    (sizeSub parsed msgLen 6, '='.toUInt8)]

/-- Hand the piece over if it looks like the end of a message. -/
def checkTrailer (r : Receiver) (parsed msgLen : ℕ) : Receiver :=
  if msgLen ≥ 7 then
    match r.compareBytes (trailerBytes parsed msgLen) with
    | (r', true) =>
      { r' with
        session := r'.session.parseMessage r'.rbuf parsed msgLen
        calls := r'.calls ++ [(List.range msgLen).map fun k => r'.rbuf (parsed + k)] }
    | (r', false) => r'
  else r

/-- The inner loop; it goes on by at least one byte in every iteration, so `rpos` iterations are
enough (`scan_spec`). -/
def scan : ℕ → Receiver → ℕ → Receiver × ℕ
  | 0, r, parsed => (r, parsed)
  | fuel + 1, r, parsed =>
    if parsed < r.rpos then
      match memchr r.rbuf parsed (r.rpos - parsed) with
      | none => (r.noteReads (List.range' parsed (r.rpos - parsed)), parsed)
      | some trailer =>
        let msgLen := trailer + 1
        scan fuel ((r.noteReads (List.range' parsed msgLen)).checkTrailer parsed msgLen)
          (parsed + msgLen)
    else (r, parsed)

/-- `recv` puts the bytes behind the data, and a null byte follows. -/
def append (r : Receiver) (chunk : List UInt8) : Receiver :=
  { r with
    rbuf := fun i =>
      if i = r.rpos + chunk.length then 0
      else if r.rpos ≤ i then (chunk[i - r.rpos]?).getD (r.rbuf i)
      else r.rbuf i
    rpos := r.rpos + chunk.length }

/-- `memmove`: the data from `parsed` on goes to the front. -/
def discard (r : Receiver) (parsed : ℕ) : Receiver :=
  if parsed > 0 ∧ parsed ≤ r.rpos then
    { r.noteReads (List.range' parsed (r.rpos - parsed)) with
      rbuf := fun i => if i < r.rpos - parsed then r.rbuf (parsed + i) else r.rbuf i
      rpos := r.rpos - parsed }
  else r

/-- One iteration of the outer loop, in which `recv` returns the bytes of `chunk`. -/
def receive (r : Receiver) (chunk : List UInt8) : Receiver :=
  if r.session.state = .notConnected then r
  else
    let (r', parsed) := scan (r.append chunk).rpos (r.append chunk) 0
    r'.discard parsed

/-- `recv` returned nothing more. -/
def finish (r : Receiver) : Receiver :=
  { r with session := { r.session with state := .notConnected } }

/-- `run`, with the results of `recv` one after the other. -/
def run (session : FIXSession) (rbuf : Memory) (chunks : List (List UInt8)) : Receiver :=
  (Transition.run receive (start session rbuf) chunks).finish

/-- `recv` returns at least a byte, and not more than it was asked for. -/
def Fits (r : Receiver) (chunk : List UInt8) : Prop :=
  chunk ≠ [] ∧ chunk.length ≤ rbufSize - r.rpos - 1

instance (r : Receiver) : DecidablePred r.Fits :=
  fun _ => inferInstanceAs (Decidable (_ ∧ _))

/-- Every message was handed over once, in order, and no byte was read that is not data. -/
structure Framed (messages : List FixMessage) (r : Receiver) : Prop where
  calls : r.calls = messages.map FixMessage.bytes
  reads : ∀ read ∈ r.reads, read.index < read.rpos

/-! ## What is handed over -/

/-- A single field that is not a checksum of three digits. -/
structure Piece (bytes : List UInt8) : Prop where
  single : ∃ body, bytes = body ++ [soh] ∧ soh ∉ body
  not_checksum : ∀ b c d, bytes ≠ ascii ['1', '0', '='] ++ [b, c, d] ++ [soh]

/-- A message is not a single field, or it is a checksum of three digits. -/
lemma not_piece_bytes (m : FixMessage) : ¬Piece m.bytes := by
  rintro ⟨⟨body, hbody, hsoh⟩, hchecksum⟩
  obtain ⟨b, c, d, hbcd⟩ := List.length_eq_three.mp m.checksum_length
  cases hfields : m.fields with
  | nil =>
    apply hchecksum b c d
    rw [FixMessage.bytes, hfields, hbcd]
    rfl
  | cons f fields =>
    -- the separator that ends the first field is not the last byte
    apply hsoh
    have hbytes : m.bytes = (f.bytes ++ (fields.flatMap FixField.bytes ++
        (ascii ['1', '0', '='] ++ m.checksum))) ++ [soh] := by
      simp [FixMessage.bytes, hfields]
    rw [hbytes] at hbody
    rw [← List.append_cancel_right hbody]
    exact List.mem_append_left _ (by simp [FixField.bytes])

/-- What `memchr` finds is the first separator. -/
lemma memchr_eq_some {mem : Memory} {first n k : ℕ} (h : memchr mem first n = some k) :
    k < n ∧ mem (first + k) = soh ∧ ∀ i < k, mem (first + i) ≠ soh := by
  rw [memchr, List.find?_range_eq_some] at h
  obtain ⟨hsoh, hmem, hfirst⟩ := h
  exact ⟨List.mem_range.mp hmem, of_decide_eq_true hsoh, fun i hi => by simpa using hfirst i hi⟩

lemma memchr_eq_none {mem : Memory} {first n : ℕ} (h : memchr mem first n = none) :
    ∀ i < n, mem (first + i) ≠ soh := by
  rw [memchr, List.find?_eq_none] at h
  intro i hi
  simpa using h i (List.mem_range.mpr hi)

/-! ## One pass over the buffer -/

/-- What a pass over the buffer does: it hands over pieces, which are not understood, and it reads
data, or the byte in front of the buffer. -/
structure Passes (r r' : Receiver) : Prop where
  session : r'.session = r.session
  rbuf : r'.rbuf = r.rbuf
  rpos : r'.rpos = r.rpos
  calls : ∀ bytes ∈ r'.calls, bytes ∈ r.calls ∨ Piece bytes
  reads : ∀ read ∈ r'.reads, read ∈ r.reads ∨ read.index < read.rpos ∨ read.index = 2 ^ 64 - 1

lemma Passes.refl (r : Receiver) : Passes r r :=
  ⟨rfl, rfl, rfl, fun _ h => Or.inl h, fun _ h => Or.inl h⟩

lemma Passes.trans {r r' r'' : Receiver} (h : Passes r r') (h' : Passes r' r'') : Passes r r'' := by
  refine ⟨h'.session.trans h.session, h'.rbuf.trans h.rbuf, h'.rpos.trans h.rpos, ?_, ?_⟩
  · intro bytes hb
    rcases h'.calls bytes hb with hb | hb
    · exact h.calls bytes hb
    · exact Or.inr hb
  · intro read hread
    rcases h'.reads read hread with hread | hread
    · exact h.reads read hread
    · exact Or.inr hread

lemma passes_noteReads {r : Receiver} {indices : List ℕ}
    (h : ∀ i ∈ indices, i < r.rpos ∨ i = 2 ^ 64 - 1) : Passes r (r.noteReads indices) := by
  refine ⟨rfl, rfl, rfl, fun _ hb => Or.inl hb, ?_⟩
  intro read hread
  rcases List.mem_append.mp hread with hread | hread
  · exact Or.inl hread
  · obtain ⟨i, hi, rfl⟩ := List.mem_map.mp hread
    exact Or.inr (h i hi)

/-- A chain of comparisons reads bytes of the chain, and if it holds they are as the chain says. -/
lemma compareBytes_spec {r : Receiver} {chain : List (ℕ × UInt8)}
    (h : ∀ p ∈ chain, p.1 < r.rpos ∨ p.1 = 2 ^ 64 - 1) :
    Passes r (r.compareBytes chain).1 ∧
      ((r.compareBytes chain).2 = true → ∀ p ∈ chain, r.rbuf p.1 = p.2) := by
  induction chain generalizing r with
  | nil => exact ⟨.refl r, fun _ _ hp => by simp at hp⟩
  | cons p rest ih =>
    have hp : Passes r (r.noteReads [p.1]) :=
      passes_noteReads fun i hi => List.mem_singleton.mp hi ▸ h p List.mem_cons_self
    by_cases heq : r.rbuf p.1 = p.2
    · have hstep : r.compareBytes (p :: rest) = (r.noteReads [p.1]).compareBytes rest := if_pos heq
      obtain ⟨hpass, hall⟩ :=
        ih (r := r.noteReads [p.1]) fun q hq => h q (List.mem_cons_of_mem _ hq)
      rw [hstep]
      constructor
      · exact hp.trans hpass
      · intro htrue q hq
        rcases List.mem_cons.mp hq with rfl | hq
        · exact heq
        · exact hall htrue q hq
    · have hstep : r.compareBytes (p :: rest) = (r.noteReads [p.1], false) := if_neg heq
      rw [hstep]
      exact ⟨hp, fun hfalse => by simp at hfalse⟩

/-- The index does not wrap as long as it stays in the buffer. -/
lemma sizeSub_of_le {parsed msgLen back : ℕ} (hle : back ≤ parsed + msgLen)
    (hlt : parsed + msgLen < 2 ^ 64) : sizeSub parsed msgLen back = parsed + msgLen - back := by
  unfold sizeSub
  omega

/-- A field of seven bytes at the start of the buffer makes the first index wrap. -/
lemma sizeSub_wraps : sizeSub 0 7 8 = 2 ^ 64 - 1 := by
  decide

lemma trailerBytes_inBounds {parsed msgLen rpos : ℕ} (hlen : 7 ≤ msgLen)
    (hle : parsed + msgLen ≤ rpos) (hrpos : rpos < rbufSize) :
    ∀ p ∈ trailerBytes parsed msgLen, p.1 < rpos ∨ p.1 = 2 ^ 64 - 1 := by
  have hsize : parsed + msgLen < 2 ^ 64 := by
    have : rbufSize < 2 ^ 64 := by decide
    omega
  intro p hp
  simp only [trailerBytes, List.mem_cons, List.not_mem_nil, or_false] at hp
  rcases hp with rfl | rfl | rfl
  · by_cases hwrap : parsed = 0 ∧ msgLen = 7
    · right
      rw [hwrap.1, hwrap.2]
      exact sizeSub_wraps
    · left
      rw [sizeSub_of_le (by omega) hsize]
      omega
  · left
    rw [sizeSub_of_le (by omega) hsize]
    omega
  · left
    rw [sizeSub_of_le (by omega) hsize]
    omega

/-- The bytes up to the first separator are a piece, if the comparison holds. -/
lemma piece_of_first {mem : Memory} {parsed k : ℕ} (hsize : parsed + (k + 1) < 2 ^ 64)
    (hsoh : mem (parsed + k) = soh) (hfirst : ∀ i < k, mem (parsed + i) ≠ soh)
    (hcompare : ∀ p ∈ trailerBytes parsed (k + 1), mem p.1 = p.2) :
    Piece ((List.range (k + 1)).map fun i => mem (parsed + i)) := by
  constructor
  · refine ⟨(List.range k).map fun i => mem (parsed + i), ?_, ?_⟩
    · rw [List.range_succ, List.map_append, List.map_singleton, hsoh]
    · intro hmem
      obtain ⟨i, hi, heq⟩ := List.mem_map.mp hmem
      exact hfirst i (List.mem_range.mp hi) heq
  · intro b c d heq
    have hk : k + 1 = 7 := by simpa [ascii] using congrArg List.length heq
    -- the second comparison looks at the first byte
    have hzero := hcompare (sizeSub parsed (k + 1) 7, '0'.toUInt8) (by simp [trailerBytes])
    rw [sizeSub_of_le (by omega) hsize] at hzero
    have hone : mem (parsed + 0) = '1'.toUInt8 := by
      have hhead := congrArg List.head? heq
      rw [List.range_succ_eq_map] at hhead
      simpa [ascii] using hhead
    have hindex : parsed + (k + 1) - 7 = parsed + 0 := by omega
    have hne : '1'.toUInt8 ≠ '0'.toUInt8 := by decide
    rw [hindex, hone] at hzero
    exact hne hzero

/-- A piece that is handed over is not understood. -/
lemma passes_checkTrailer {r : Receiver} {parsed k : ℕ} (hrpos : r.rpos < rbufSize)
    (hle : parsed + (k + 1) ≤ r.rpos) (hsoh : r.rbuf (parsed + k) = soh)
    (hfirst : ∀ i < k, r.rbuf (parsed + i) ≠ soh) : Passes r (r.checkTrailer parsed (k + 1)) := by
  unfold checkTrailer
  split_ifs with hlen
  · obtain ⟨hpass, hcompare⟩ := compareBytes_spec (trailerBytes_inBounds hlen hle hrpos)
    rcases hchain : r.compareBytes (trailerBytes parsed (k + 1)) with ⟨r', _ | _⟩
    · rw [hchain] at hpass
      exact hpass
    · rw [hchain] at hpass hcompare
      have hsize : parsed + (k + 1) < 2 ^ 64 := by
        have : rbufSize < 2 ^ 64 := by decide
        omega
      have hpiece := piece_of_first hsize hsoh hfirst (hcompare rfl)
      have hparse : r'.session.parseMessage r'.rbuf parsed (k + 1) = r'.session := by
        apply FIXSession.parseMessage_of_single
        intro i hi
        rw [hpass.rbuf]
        exact hfirst i (by omega)
      dsimp only
      rw [hparse, hpass.rbuf]
      refine ⟨hpass.session, rfl, hpass.rpos, ?_, hpass.reads⟩
      intro bytes hb
      rcases List.mem_append.mp hb with hb | hb
      · exact hpass.calls bytes hb
      · rw [List.mem_singleton.mp hb]
        exact Or.inr hpiece
  · exact .refl r

lemma scan_of_none {fuel : ℕ} {r : Receiver} {parsed : ℕ} (hlt : parsed < r.rpos)
    (h : memchr r.rbuf parsed (r.rpos - parsed) = none) :
    scan (fuel + 1) r parsed = (r.noteReads (List.range' parsed (r.rpos - parsed)), parsed) := by
  simp [scan, hlt, h]

lemma scan_of_some {fuel : ℕ} {r : Receiver} {parsed k : ℕ} (hlt : parsed < r.rpos)
    (h : memchr r.rbuf parsed (r.rpos - parsed) = some k) :
    scan (fuel + 1) r parsed =
      scan fuel ((r.noteReads (List.range' parsed (k + 1))).checkTrailer parsed (k + 1))
        (parsed + (k + 1)) := by
  simp [scan, hlt, h]

/-- The inner loop hands over pieces only, and what it leaves of the data contains no separator. -/
theorem scan_spec {fuel : ℕ} {r : Receiver} {parsed : ℕ} (hrpos : r.rpos < rbufSize)
    (hparsed : parsed ≤ r.rpos) (hfuel : r.rpos - parsed ≤ fuel) :
    Passes r (scan fuel r parsed).1 ∧ (scan fuel r parsed).2 ≤ r.rpos ∧
      ∀ i, (scan fuel r parsed).2 ≤ i → i < r.rpos → r.rbuf i ≠ soh := by
  induction fuel generalizing r parsed with
  | zero => exact ⟨.refl r, hparsed, fun i hi hi' => by simp only [scan] at hi; omega⟩
  | succ fuel ih =>
    by_cases hlt : parsed < r.rpos
    · cases htrailer : memchr r.rbuf parsed (r.rpos - parsed) with
      | none =>
        rw [scan_of_none hlt htrailer]
        refine ⟨passes_noteReads ?_, hparsed, ?_⟩
        · intro i hi
          have := List.mem_range'_1.mp hi
          omega
        · intro i hi hi'
          have hne := memchr_eq_none htrailer (i - parsed) (by omega)
          rwa [Nat.add_sub_cancel' hi] at hne
      | some k =>
        rw [scan_of_some hlt htrailer]
        obtain ⟨hk, hsoh, hfirst⟩ := memchr_eq_some htrailer
        have hnote : Passes r (r.noteReads (List.range' parsed (k + 1))) := by
          apply passes_noteReads
          intro i hi
          have := List.mem_range'_1.mp hi
          omega
        have hcheck : Passes (r.noteReads (List.range' parsed (k + 1)))
            ((r.noteReads (List.range' parsed (k + 1))).checkTrailer parsed (k + 1)) :=
          passes_checkTrailer hrpos (by change parsed + (k + 1) ≤ r.rpos; omega) hsoh hfirst
        have hpass := hnote.trans hcheck
        generalize (r.noteReads (List.range' parsed (k + 1))).checkTrailer parsed (k + 1) = r'
          at hpass
        obtain ⟨hrest, hle, hclean⟩ := @ih r' (parsed + (k + 1))
          (hpass.rpos.symm ▸ hrpos) (by rw [hpass.rpos]; omega) (by rw [hpass.rpos]; omega)
        rw [hpass.rpos, hpass.rbuf] at hclean
        exact ⟨hpass.trans hrest, hle.trans_eq hpass.rpos, hclean⟩
    · have hdone : scan (fuel + 1) r parsed = (r, parsed) := by simp [scan, hlt]
      rw [hdone]
      exact ⟨.refl r, hparsed, fun i hi hi' => by omega⟩

/-! ## Whole runs -/

/-- The state of the loop: the data fit the buffer, the session is as it was, and so far pieces were
handed over only. -/
structure LoopInv (session : FIXSession) (r : Receiver) : Prop where
  session_eq : r.session = session
  rpos_lt : r.rpos < rbufSize
  calls : ∀ bytes ∈ r.calls, Piece bytes
  reads : ∀ read ∈ r.reads, read.index < read.rpos ∨ read.index = 2 ^ 64 - 1

lemma loopInv_start (session : FIXSession) (rbuf : Memory) :
    LoopInv session (start session rbuf) :=
  ⟨rfl, by simp [start, rbufSize], by simp [start], by simp [start]⟩

/-- A pass keeps the invariant. -/
lemma LoopInv.of_passes {session : FIXSession} {r r' : Receiver} (h : LoopInv session r)
    (hpass : Passes r r') : LoopInv session r' := by
  refine ⟨hpass.session.trans h.session_eq, hpass.rpos.symm ▸ h.rpos_lt, ?_, ?_⟩
  · intro bytes hb
    rcases hpass.calls bytes hb with hb | hb
    · exact h.calls bytes hb
    · exact hb
  · intro read hread
    rcases hpass.reads read hread with hread | hread
    · exact h.reads read hread
    · exact hread

/-- One iteration keeps the invariant. -/
theorem LoopInv.receive {session : FIXSession} {r : Receiver} (h : LoopInv session r)
    {chunk : List UInt8} (hfits : r.Fits chunk) : LoopInv session (r.receive chunk) := by
  unfold Receiver.receive
  split_ifs with hstate
  · exact h
  · have hrpos : (r.append chunk).rpos < rbufSize := by
      have := h.rpos_lt
      have := hfits.2
      change r.rpos + chunk.length < rbufSize
      omega
    have happend : LoopInv session (r.append chunk) :=
      ⟨h.session_eq, hrpos, h.calls, h.reads⟩
    have hspec := scan_spec hrpos (Nat.zero_le _) (Nat.sub_le (r.append chunk).rpos 0)
    generalize scan (r.append chunk).rpos (r.append chunk) 0 = result at hspec
    obtain ⟨r', parsed⟩ := result
    have hscan : LoopInv session r' := happend.of_passes hspec.1
    change LoopInv session (r'.discard parsed)
    unfold discard
    split_ifs with hparsed
    · have hnote : Passes r' (r'.noteReads (List.range' parsed (r'.rpos - parsed))) := by
        apply passes_noteReads
        intro i hi
        have := List.mem_range'_1.mp hi
        omega
      have hnoted := hscan.of_passes hnote
      exact ⟨hnoted.session_eq, (Nat.sub_le _ _).trans_lt hscan.rpos_lt, hnoted.calls,
        hnoted.reads⟩
    · exact hscan

/-- The invariant holds at the end of every run. -/
theorem loopInv_run {session : FIXSession} {rbuf : Memory} {chunks : List (List UInt8)}
    (hfits : Transition.Admissible receive Fits (start session rbuf) chunks) :
    LoopInv session (Transition.run receive (start session rbuf) chunks) :=
  Transition.invariant_run (P := LoopInv session) (fun _ _ hfits h => h.receive hfits) hfits
    (loopInv_start session rbuf)

/-- **No report.**  Whatever arrives, the session ends as it was, but not connected: no callback is
called, and no heartbeat, logon or logout is noticed. -/
theorem run_session {session : FIXSession} {rbuf : Memory} {chunks : List (List UInt8)}
    (hfits : Transition.Admissible receive Fits (start session rbuf) chunks) :
    (run session rbuf chunks).session = { session with state := .notConnected } := by
  rw [run, finish, (loopInv_run hfits).session_eq]

/-- Every read is one of data, or of the byte in front of the buffer. -/
theorem run_reads {session : FIXSession} {rbuf : Memory} {chunks : List (List UInt8)}
    (hfits : Transition.Admissible receive Fits (start session rbuf) chunks) :
    ∀ read ∈ (run session rbuf chunks).reads, read.index < read.rpos ∨ read.index = 2 ^ 64 - 1 :=
  (loopInv_run hfits).reads

/-- **Framing.**  For well-formed messages that arrive in chunks of any size that fit the buffer,
every message is handed over once, in order, exactly when there are none. -/
theorem framed_iff_nil (session : FIXSession) (rbuf : Memory) (messages : List FixMessage)
    (chunks : List (List UInt8)) (hjoin : chunks.flatten = messages.flatMap FixMessage.bytes)
    (hfits : Transition.Admissible receive Fits (start session rbuf) chunks) :
    Framed messages (run session rbuf chunks) ↔ messages = [] := by
  constructor
  · rintro ⟨hcalls, -⟩
    cases messages with
    | nil => rfl
    | cons m messages =>
      have hmem : m.bytes ∈ (run session rbuf chunks).calls := by
        rw [hcalls]
        exact List.mem_cons_self
      exact absurd ((loopInv_run hfits).calls m.bytes hmem) (not_piece_bytes m)
  · rintro rfl
    -- nothing arrives at all
    have hchunks : chunks = [] := by
      cases chunks with
      | nil => rfl
      | cons chunk chunks =>
        have hempty : chunk = [] := (List.append_eq_nil_iff.mp hjoin).1
        exact absurd hempty hfits.1.1
    rw [hchunks]
    exact ⟨rfl, fun read hread => by simp [run, finish, start] at hread⟩

/-- An active session with both callbacks. -/
def activeSession : FIXSession where
  state := .active
  lastRttNs := 0
  lastHeartbeatTsNs := 0
  ackCb := true
  fillCb := true
  reports := []
  rdtscNs := fun n => n
  rdtscReads := 0

/-- The exchange accepts order 7 under its number 9. -/
def executionReport : FixMessage where
  fields :=
    [⟨ascii ['8'], ascii ['F', 'I', 'X', '.', '4', '.', '2'], by decide, by decide, by decide⟩,
      ⟨ascii ['3', '5'], ascii ['8'], by decide, by decide, by decide⟩,
      ⟨ascii ['1', '1'], ascii ['7'], by decide, by decide, by decide⟩,
      ⟨ascii ['3', '7'], ascii ['9'], by decide, by decide, by decide⟩,
      ⟨ascii ['1', '5', '0'], ascii ['0'], by decide, by decide, by decide⟩]
  checksum := ascii ['1', '8', '5']
  checksum_length := rfl
  checksum_digits := by decide
  not_logout := by decide

/-- The report arrives in two chunks, the second of which is the checksum. -/
def reportChunks : List (List UInt8) :=
  [executionReport.fields.flatMap FixField.bytes,
    ascii ['1', '0', '='] ++ executionReport.checksum ++ [soh]]

/-- The equivalence at an execution report, whose callback is not called. -/
theorem framed_iff_executionReport :
    Framed [executionReport] (run activeSession (fun _ => 0) reportChunks) ↔
      [executionReport] = [] :=
  framed_iff_nil activeSession (fun _ => 0) [executionReport] reportChunks (by decide)
    (by decide +kernel)

/-- The execution report is not handed over and no callback is called; and for its checksum the byte
in front of the buffer is read. -/
theorem not_framed_executionReport :
    (run activeSession (fun _ => 0) reportChunks).calls = [] ∧
      (run activeSession (fun _ => 0) reportChunks).session.reports = [] ∧
      ⟨2 ^ 64 - 1, 7⟩ ∈ (run activeSession (fun _ => 0) reportChunks).reads ∧
      ¬Framed [executionReport] (run activeSession (fun _ => 0) reportChunks) := by
  have hcalls : (run activeSession (fun _ => 0) reportChunks).calls = [] := by decide +kernel
  refine ⟨hcalls, by decide +kernel, by decide +kernel, ?_⟩
  intro h
  have hone := h.calls
  rw [hcalls] at hone
  simp at hone

end Receiver

end QuantTrade
