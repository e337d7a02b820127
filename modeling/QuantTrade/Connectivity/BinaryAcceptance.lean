import QuantTrade.Connectivity.BinaryReceive

/-!
# What the binary receiver accepts

The header of a message has a version and a checksum, which `send_msg` fills in and `run` does not
look at.  Whatever arrives, the callbacks get what the frames of the stream say, whose headers are
right in their magic only (`deliveries_eq`).  So every acknowledgement and every fill comes from a
header that `send_msg` builds exactly when the frames that reach a callback are right in the version
and the checksum as well (`authentic_iff`).
-/

namespace QuantTrade

namespace BinaryProtocolGateway

/-- The header is one that `send_msg` builds for its type and length. -/
def MsgHeader.Authentic (h : MsgHeader) : Prop :=
  h = sendHeader h.msgType h.bodyLen

instance : DecidablePred MsgHeader.Authentic :=
  fun _ => inferInstanceAs (Decidable (_ = _))

/-- The frame reaches a callback. -/
def Frame.Reported (g : BinaryProtocolGateway) (f : Frame) : Prop :=
  ∃ e ∈ f.event, g.registered e = true

/-- The version and the checksum are those of the protocol. -/
def Frame.Checked (f : Frame) : Prop :=
  f.version = versionNumber ∧ f.checksum = calcChecksum f.header

/-- The calls that a frame leads to, with its header. -/
def Frame.calls (g : BinaryProtocolGateway) (f : Frame) : List (MsgHeader × Event) :=
  (f.event.toList.filter g.registered).map (f.header, ·)

/-- No frame begins where these bytes begin: they are too few, or the magic is wrong. -/
def NoFrame (bytes : List UInt8) : Prop :=
  ∀ (f : Frame) tail, bytes ≠ f.bytes ++ tail

/-! ## Frames and bytes -/

/-- A header is written as it was read. -/
lemma MsgHeader.bytes_ofBytes {bytes : List UInt8} (hlen : bytes.length = 8) :
    (ofBytes bytes).bytes = bytes := by
  have hword (b b' : UInt8) :
      LittleEndian.encode 2 (UInt16.ofNat (LittleEndian.decode [b, b'])).toNat = [b, b'] := by
    have hlt : LittleEndian.decode [b, b'] < 2 ^ 16 := by
      simpa using LittleEndian.decode_lt [b, b']
    rw [UInt16.toNat_ofNat', Nat.mod_eq_of_lt hlt]
    exact LittleEndian.encode_decode [b, b']
  have hbyte (b : UInt8) : UInt8.ofNat (LittleEndian.decode [b]) = b := by
    simp [LittleEndian.decode]
  rcases bytes with _ | ⟨b₀, _ | ⟨b₁, _ | ⟨b₂, _ | ⟨b₃, _ | ⟨b₄, _ | ⟨b₅, _ | ⟨b₆, _ | ⟨b₇,
    _ | ⟨b₈, bytes⟩⟩⟩⟩⟩⟩⟩⟩⟩
  on_goal 9 =>
    simp only [ofBytes, MsgHeader.bytes, field, List.drop_zero, List.drop_succ_cons,
      List.take_succ_cons, List.take_zero, hword, hbyte]
    rfl
  all_goals simp at hlen

/-- The header of a frame is read from the first 8 bytes. -/
lemma Frame.ofBytes_take (f : Frame) (tail : List UInt8) :
    MsgHeader.ofBytes ((f.bytes ++ tail).take 8) = f.header := by
  have hlen := f.length_bytes
  rw [List.take_append_of_le_length (by omega), f.take_bytes, MsgHeader.ofBytes_bytes]

/-- A frame begins where there are enough bytes and the magic is right. -/
lemma exists_frame (bytes : List UInt8) (hlen : 8 ≤ bytes.length)
    (hmagic : (MsgHeader.ofBytes (bytes.take 8)).magic = magicNumber)
    (hbody : 8 + (MsgHeader.ofBytes (bytes.take 8)).bodyLen.toNat ≤ bytes.length) :
    ∃ (f : Frame) (tail : List UInt8), bytes = f.bytes ++ tail := by
  generalize hhdr : MsgHeader.ofBytes (bytes.take 8) = hdr at *
  have hhead : hdr.bytes = bytes.take 8 := by
    rw [← hhdr]
    exact MsgHeader.bytes_ofBytes (by rw [List.length_take]; omega)
  have hlength : ((bytes.drop 8).take hdr.bodyLen.toNat).length = hdr.bodyLen.toNat := by
    rw [List.length_take, List.length_drop]
    omega
  let f : Frame :=
    { version := hdr.version
      msgType := hdr.msgType
      checksum := hdr.checksum
      body := (bytes.drop 8).take hdr.bodyLen.toNat
      length_lt := hlength.trans_lt hdr.bodyLen.toNat_lt }
  have hheader : f.header = hdr := by
    have hbodyLen : UInt16.ofNat f.body.length = hdr.bodyLen := by rw [hlength, UInt16.ofNat_toNat]
    rw [Frame.header, hbodyLen, ← hmagic]
  refine ⟨f, bytes.drop (8 + hdr.bodyLen.toNat), ?_⟩
  rw [Frame.bytes, hheader, hhead, List.append_assoc, ← List.drop_drop, List.take_append_drop,
    List.take_append_drop]

/-- Frames that stand at the same place are the same. -/
lemma Frame.bytes_append_inj {f f' : Frame} {tail tail' : List UInt8}
    (h : f.bytes ++ tail = f'.bytes ++ tail') : f = f' ∧ tail = tail' := by
  have hheader : f.header = f'.header := by
    rw [← f.ofBytes_take tail, h, f'.ofBytes_take]
  have hlength : f.bytes.length = f'.bytes.length := by
    rw [f.length_bytes, f'.length_bytes, ← f.toNat_bodyLen, ← f'.toNat_bodyLen, hheader]
  obtain ⟨hbytes, htail⟩ := List.append_inj h hlength
  refine ⟨?_, htail⟩
  rw [bytes, bytes, hheader, List.append_cancel_left_eq] at hbytes
  obtain ⟨version, msgType, checksum, body, _⟩ := f
  obtain ⟨version', msgType', checksum', body', _⟩ := f'
  simp only [header, MsgHeader.mk.injEq] at hheader
  simp only [mk.injEq]
  exact ⟨hheader.2.1, hheader.2.2.1, hheader.2.2.2.2, hbytes⟩

/-- There is one way only to cut bytes into frames, up to where none begins. -/
lemma frames_prefix {frames frames' : List Frame} {rest rest' : List UInt8} (hrest : NoFrame rest)
    (h : frames.flatMap Frame.bytes ++ rest = frames'.flatMap Frame.bytes ++ rest') :
    frames' <+: frames := by
  induction frames' generalizing frames with
  | nil => exact List.nil_prefix
  | cons f' frames' ih =>
    rw [List.flatMap_cons, List.append_assoc] at h
    cases frames with
    | nil => exact absurd h (hrest f' _)
    | cons f frames =>
      rw [List.flatMap_cons, List.append_assoc] at h
      obtain ⟨rfl, htail⟩ := Frame.bytes_append_inj h
      exact List.cons_prefix_cons.mpr ⟨rfl, ih htail⟩

lemma noFrame_of_short {bytes : List UInt8} (h : bytes.length < 8) : NoFrame bytes := by
  rintro f tail rfl
  rw [List.length_append, f.length_bytes] at h
  omega

lemma noFrame_of_magic {bytes : List UInt8}
    (h : (MsgHeader.ofBytes (bytes.take 8)).magic ≠ magicNumber) : NoFrame bytes := by
  rintro f tail rfl
  rw [f.ofBytes_take] at h
  exact h rfl

lemma noFrame_of_incomplete {bytes : List UInt8}
    (h : bytes.length < 8 + (MsgHeader.ofBytes (bytes.take 8)).bodyLen.toNat) : NoFrame bytes := by
  rintro f tail rfl
  rw [f.ofBytes_take, f.toNat_bodyLen, List.length_append, f.length_bytes] at h
  omega

end BinaryProtocolGateway

namespace BinaryReceiver

open BinaryProtocolGateway

/-! ## The calls with their headers -/

/-- The calls made for the message at the front, each with the header it was made for. -/
def callsAtFront (r : BinaryReceiver) : List (MsgHeader × Event) :=
  (r.consume.gateway.events.drop r.gateway.events.length).map (r.header, ·)

/-- The calls of a pass over the buffer. -/
def parseCalls : ℕ → BinaryReceiver → List (MsgHeader × Event)
  | 0, _ => []
  | fuel + 1, r =>
    if r.rpos < 8 then []
    else if r.header.magic ≠ magicNumber then []
    else if r.rpos < r.msgLen then []
    else r.callsAtFront ++ parseCalls fuel r.consume

/-- The calls of one iteration of the outer loop. -/
def receiveCalls (r : BinaryReceiver) (chunk : List UInt8) : List (MsgHeader × Event) :=
  if r.gateway.connected then parseCalls (r.append chunk).rpos (r.append chunk) else []

/-- The calls of a run. -/
def calls : BinaryReceiver → List (List UInt8) → List (MsgHeader × Event)
  | _, [] => []
  | r, chunk :: chunks => r.receiveCalls chunk ++ calls (r.receive chunk) chunks

variable {r : BinaryReceiver}

/-- Every message adds to the calls and takes none back. -/
lemma events_consume (r : BinaryReceiver) :
    r.consume.gateway.events = r.gateway.events ++ r.callsAtFront.map Prod.snd := by
  have hpre : r.gateway.events <+: r.consume.gateway.events := by
    unfold consume handleMessage handleAck handleFill handleHeartbeat
    dsimp only
    split_ifs <;> first | exact List.prefix_append _ _ | exact List.prefix_rfl
  have hsnd : r.callsAtFront.map Prod.snd =
      r.consume.gateway.events.drop r.gateway.events.length := by
    rw [callsAtFront, List.map_map]
    exact List.map_id _
  rw [hsnd]
  exact (List.prefix_iff_eq_append.mp hpre).symm

lemma events_parse (fuel : ℕ) (r : BinaryReceiver) :
    (parse fuel r).gateway.events = r.gateway.events ++ (parseCalls fuel r).map Prod.snd := by
  induction fuel generalizing r with
  | zero => simp [parse, parseCalls]
  | succ fuel ih =>
    rw [parse, parseCalls]
    split_ifs
    · simp
    · simp
    · simp
    · rw [ih, events_consume, List.map_append, List.append_assoc]

/-- The calls with their headers are the calls of the run. -/
theorem events_run (gateway : BinaryProtocolGateway) (rbuf : Memory) (chunks : List (List UInt8)) :
    (run gateway rbuf chunks).gateway.events =
      gateway.events ++ ((start gateway rbuf).calls chunks).map Prod.snd := by
  have hreads (r : BinaryReceiver) : (Transition.run receive r chunks).gateway.events =
      r.gateway.events ++ (r.calls chunks).map Prod.snd := by
    induction chunks generalizing r with
    | nil => simp [calls]
    | cons chunk chunks ih =>
      have hchunk : (r.receive chunk).gateway.events =
          r.gateway.events ++ (r.receiveCalls chunk).map Prod.snd := by
        unfold receive receiveCalls
        split_ifs
        · exact events_parse _ _
        · simp
      rw [Transition.run_cons, ih, hchunk, calls, List.map_append, List.append_assoc]
  exact hreads (start gateway rbuf)

/-! ## What the loop accepts -/

/-- The header is read from the front of the data. -/
lemma header_eq (hlen : 8 ≤ r.rpos) : r.header = MsgHeader.ofBytes (r.data.take 8) := by
  have hread := take_drop_readBytes r.rbuf 0 0 (show 0 + 8 ≤ r.rpos from hlen)
  rw [header, ← hread, List.drop_zero]
  rfl

/-- The calls for a frame at the front. -/
lemma callsAtFront_of_frame {f : Frame} {tail : List UInt8} (hdata : r.data = f.bytes ++ tail) :
    r.callsAtFront = f.calls r.gateway := by
  have hlen : 8 ≤ r.rpos := by
    rw [← length_data, hdata, List.length_append, f.length_bytes]
    omega
  have hheader : r.header = f.header := by rw [header_eq hlen, hdata, f.ofBytes_take]
  obtain ⟨-, -, hevents⟩ := parse_of_frame 0 hdata
  rw [callsAtFront, hevents, List.drop_left, hheader, Frame.calls]

/-- The pass over the buffer handled these frames, and stopped where none begins: for now, or for
good when the magic was wrong. -/
structure Handled (r : BinaryReceiver) (frames : List Frame) (calls : List (MsgHeader × Event))
    (r' : BinaryReceiver) : Prop where
  data : r.data = frames.flatMap Frame.bytes ++ r'.data
  calls : calls = frames.flatMap (Frame.calls r.gateway)
  registered : r'.gateway.registered = r.gateway.registered
  stopped : r'.gateway.connected = true ∧ NoFrame r'.data ∨
    r'.gateway.connected = false ∧ ∀ more, NoFrame (r'.data ++ more)

/-- Where the magic at the front is wrong, no frame begins, whatever arrives behind it. -/
lemma noFrame_append_of_magic (hlen : 8 ≤ r.rpos) (hmagic : r.header.magic ≠ magicNumber)
    (more : List UInt8) : NoFrame (r.data ++ more) := by
  apply noFrame_of_magic
  have hdata : (r.data ++ more).take 8 = r.data.take 8 :=
    List.take_append_of_le_length (by rw [length_data]; omega)
  rwa [hdata, ← header_eq hlen]

/-- Where there are enough bytes behind the right magic, a frame stands at the front. -/
lemma exists_frame_front (hlen : 8 ≤ r.rpos) (hmagic : r.header.magic = magicNumber)
    (hmore : r.msgLen ≤ r.rpos) : ∃ (f : Frame) (tail : List UInt8), r.data = f.bytes ++ tail := by
  have hheader := header_eq hlen
  have hlength := length_data r
  refine exists_frame r.data (by omega) ?_ ?_
  · rwa [← hheader]
  · rw [← hheader, hlength]
    exact hmore

lemma registered_consume : r.consume.gateway.registered = r.gateway.registered := by
  obtain ⟨-, hack, hfill⟩ := r.gateway.handleMessage_frame r.header r.rbuf
  funext e
  cases e with
  | ack a => exact hack
  | fill f => exact hfill

/-- The frame at the front comes before those handled after it. -/
lemma Handled.cons {f : Frame} {tail : List UInt8} {frames : List Frame}
    {calls : List (MsgHeader × Event)} {r' : BinaryReceiver} (hdata : r.data = f.bytes ++ tail)
    (h : Handled r.consume frames calls r') :
    Handled r (f :: frames) (r.callsAtFront ++ calls) r' := by
  obtain ⟨-, htail, -⟩ := parse_of_frame 0 hdata
  have hcalls : Frame.calls r.consume.gateway = Frame.calls r.gateway := by
    funext f'
    rw [Frame.calls, Frame.calls, registered_consume]
  refine ⟨?_, ?_, h.registered.trans registered_consume, h.stopped⟩
  · rw [hdata, List.flatMap_cons, List.append_assoc, ← h.data, htail]
  · rw [callsAtFront_of_frame hdata, h.calls, hcalls, List.flatMap_cons]

/-- A pass over the buffer handles the frames at its front, and stops where none begins. -/
lemma handled_parse {fuel : ℕ} (hconn : r.gateway.connected = true) (hfuel : r.rpos ≤ fuel) :
    ∃ frames, Handled r frames (parseCalls fuel r) (parse fuel r) := by
  induction fuel generalizing r with
  | zero =>
    rw [parse, parseCalls]
    refine ⟨[], rfl, rfl, rfl, Or.inl ⟨hconn, noFrame_of_short ?_⟩⟩
    rw [length_data]
    omega
  | succ fuel ih =>
    by_cases hshort : r.rpos < 8
    · rw [parse, parseCalls, if_pos hshort, if_pos hshort]
      refine ⟨[], rfl, rfl, rfl, Or.inl ⟨hconn, noFrame_of_short ?_⟩⟩
      rw [length_data]
      omega
    have hlen := not_lt.mp hshort
    by_cases hmagic : r.header.magic ≠ magicNumber
    · rw [parse, parseCalls, if_neg hshort, if_neg hshort, if_pos hmagic, if_pos hmagic]
      exact ⟨[], rfl, rfl, rfl, Or.inr ⟨rfl, noFrame_append_of_magic hlen hmagic⟩⟩
    by_cases hmore : r.rpos < r.msgLen
    · rw [parse, parseCalls, if_neg hshort, if_neg hshort, if_neg hmagic, if_neg hmagic,
        if_pos hmore, if_pos hmore]
      refine ⟨[], rfl, rfl, rfl, Or.inl ⟨hconn, noFrame_of_incomplete ?_⟩⟩
      rwa [length_data, ← header_eq hlen]
    · -- a complete frame stands at the front
      obtain ⟨f, tail, hdata⟩ := exists_frame_front hlen (not_not.mp hmagic) (not_lt.mp hmore)
      obtain ⟨hparse, -, -⟩ := parse_of_frame fuel hdata
      obtain ⟨hconn', -, -⟩ := r.gateway.handleMessage_frame r.header r.rbuf
      have hconsume : r.consume.gateway.connected = true := hconn'.trans hconn
      obtain ⟨frames, hrest⟩ := ih hconsume (rpos_consume_le hfuel)
      rw [hparse, parseCalls, if_neg hshort, if_neg hmagic, if_neg hmore]
      exact ⟨f :: frames, hrest.cons hdata⟩

/-- What the chunks received so far led to. -/
structure Accepted (gateway : BinaryProtocolGateway) (received : List UInt8)
    (calls : List (MsgHeader × Event)) (r : BinaryReceiver) : Prop where
  cut : ∃ (frames : List Frame) (rest : List UInt8),
    received = frames.flatMap Frame.bytes ++ rest ∧
    calls = frames.flatMap (Frame.calls gateway) ∧
    (r.gateway.connected = true ∧ r.data = rest ∧ NoFrame rest ∨
      r.gateway.connected = false ∧ ∀ more, NoFrame (rest ++ more))
  registered : r.gateway.registered = gateway.registered

lemma accepted_receive {gateway : BinaryProtocolGateway} {received : List UInt8}
    {calls : List (MsgHeader × Event)} (h : Accepted gateway received calls r)
    (chunk : List UInt8) :
    Accepted gateway (received ++ chunk) (calls ++ r.receiveCalls chunk) (r.receive chunk) := by
  obtain ⟨⟨frames, rest, hreceived, hcalls, ⟨hconn, hdata, -⟩ | ⟨hconn, hdead⟩⟩, hreg⟩ := h
  · have hconn' : (r.append chunk).gateway.connected = true := hconn
    obtain ⟨frames', hhandled⟩ := handled_parse hconn' le_rfl
    have hsame : Frame.calls (r.append chunk).gateway = Frame.calls gateway := by
      funext f
      rw [Frame.calls, Frame.calls, ← hreg]
      rfl
    rw [receive, receiveCalls, if_pos hconn, if_pos hconn]
    refine ⟨⟨frames ++ frames', (parse (r.append chunk).rpos (r.append chunk)).data, ?_, ?_, ?_⟩,
      hhandled.registered.trans hreg⟩
    · rw [hreceived, List.append_assoc, ← hdata, ← data_append, hhandled.data, List.flatMap_append,
        List.append_assoc]
    · rw [hcalls, hhandled.calls, hsame, List.flatMap_append]
    · exact hhandled.stopped.imp (fun hgoing => ⟨hgoing.1, rfl, hgoing.2⟩) id
  · rw [receive, receiveCalls, if_neg (by simp [hconn]), if_neg (by simp [hconn])]
    refine ⟨⟨frames, rest ++ chunk, ?_, ?_, Or.inr ⟨hconn, fun more => ?_⟩⟩, hreg⟩
    · rw [hreceived, List.append_assoc]
    · rw [hcalls, List.append_nil]
    · rw [List.append_assoc]
      exact hdead _

lemma accepted_run {gateway : BinaryProtocolGateway} {received : List UInt8}
    {calls' : List (MsgHeader × Event)} (h : Accepted gateway received calls' r)
    (chunks : List (List UInt8)) :
    Accepted gateway (received ++ chunks.flatten) (calls' ++ r.calls chunks)
      (Transition.run receive r chunks) := by
  induction chunks generalizing received calls' r with
  | nil => simpa [calls] using h
  | cons chunk chunks ih =>
    have hrest := ih (accepted_receive h chunk)
    rwa [List.append_assoc, List.append_assoc] at hrest

/-- However a connected gateway gets its bytes, it makes the calls of the frames that stand at the
front of the stream, as far as one follows the other. -/
theorem calls_eq {gateway : BinaryProtocolGateway} (hconn : gateway.connected = true)
    (rbuf : Memory) (chunks : List (List UInt8)) :
    ∃ (frames : List Frame) (rest : List UInt8),
      chunks.flatten = frames.flatMap Frame.bytes ++ rest ∧ NoFrame rest ∧
      (start gateway rbuf).calls chunks = frames.flatMap (Frame.calls gateway) := by
  have hstart : Accepted gateway [] [] (start gateway rbuf) :=
    ⟨⟨[], [], rfl, rfl, Or.inl ⟨hconn, rfl, noFrame_of_short (by decide)⟩⟩, rfl⟩
  obtain ⟨⟨frames, rest, hflat, hcalls, hstop⟩, -⟩ := accepted_run hstart chunks
  rw [List.nil_append] at hflat hcalls
  refine ⟨frames, rest, hflat, ?_, hcalls⟩
  rcases hstop with ⟨-, -, hnone⟩ | ⟨-, hdead⟩
  · exact hnone
  · simpa using hdead []

/-- A frame is as `send_msg` builds it when its version and checksum are right. -/
lemma authentic_header_iff (f : Frame) : f.header.Authentic ↔ f.Checked := by
  obtain ⟨version, msgType, checksum, body, hlt⟩ := f
  -- the checksum is not among the bytes that are summed up
  have hsum : calcChecksum ⟨magicNumber, versionNumber, msgType, .ofNat body.length, checksum⟩ =
      calcChecksum ⟨magicNumber, versionNumber, msgType, .ofNat body.length, 0⟩ := rfl
  simp only [MsgHeader.Authentic, Frame.Checked, sendHeader, Frame.header, MsgHeader.mk.injEq,
    true_and]
  constructor
  · rintro ⟨rfl, hchecksum⟩
    rw [hsum]
    exact ⟨rfl, hchecksum⟩
  · rintro ⟨rfl, hchecksum⟩
    rw [hsum] at hchecksum
    exact ⟨rfl, hchecksum⟩

/-- The header of a call is that of its frame. -/
lemma forall_calls_iff (g : BinaryProtocolGateway) (frames : List Frame) :
    (∀ c ∈ frames.flatMap (Frame.calls g), c.1.Authentic) ↔
      ∀ f ∈ frames, f.Reported g → f.Checked := by
  constructor
  · rintro h f hf ⟨e, he, hreg⟩
    rw [← authentic_header_iff]
    refine h (f.header, e) (List.mem_flatMap.mpr ⟨f, hf, List.mem_map.mpr ⟨e, ?_, rfl⟩⟩)
    exact List.mem_filter.mpr ⟨Option.mem_toList.mpr he, hreg⟩
  · intro h c hc
    obtain ⟨f, hf, hcall⟩ := List.mem_flatMap.mp hc
    obtain ⟨e, he, rfl⟩ := List.mem_map.mp hcall
    obtain ⟨hevent, hreg⟩ := List.mem_filter.mp he
    exact (authentic_header_iff f).mpr (h f hf ⟨e, Option.mem_toList.mp hevent, hreg⟩)

/-- **What the receiver accepts.**  Whatever bytes arrive, in whatever chunks that the buffer has
room for, every acknowledgement and every fill that a connected gateway passes on comes from a
header that `send_msg` builds for its type and length exactly when this is so of each frame that
reaches a callback, among the frames which stand at the front of the stream one behind the other:
its version is the one of the protocol and its checksum that of its header.  The data stay inside
the buffer all the while. -/
theorem authentic_iff {gateway : BinaryProtocolGateway} (hconn : gateway.connected = true)
    (rbuf : Memory) (chunks : List (List UInt8))
    (hfits : Transition.Admissible receive Fits (start gateway rbuf) chunks) :
    ((∀ c ∈ (start gateway rbuf).calls chunks, c.1.Authentic) ↔
      ∀ (before : List Frame) (f : Frame) (rest : List UInt8),
        chunks.flatten = before.flatMap Frame.bytes ++ f.bytes ++ rest →
          f.Reported gateway → f.Checked) ∧
      ∀ received, received <+: chunks →
        (Transition.run receive (start gateway rbuf) received).rpos ≤ rbufSize := by
  refine ⟨?_, fun _ => rpos_run_le hfits⟩
  obtain ⟨frames, rest, hflat, hrest, hcalls⟩ := calls_eq hconn rbuf chunks
  rw [hcalls, forall_calls_iff]
  constructor
  · intro h before f tail htail hreported
    have hsplit : frames.flatMap Frame.bytes ++ rest =
        (before ++ [f]).flatMap Frame.bytes ++ tail := by
      rw [← hflat, htail, List.flatMap_append, List.flatMap_singleton]
    have hpre := frames_prefix hrest hsplit
    exact h f (hpre.subset (List.mem_append_right _ List.mem_cons_self)) hreported
  · intro h f hf hreported
    obtain ⟨before, after, rfl⟩ := List.append_of_mem hf
    refine h before f (after.flatMap Frame.bytes ++ rest) ?_ hreported
    rw [hflat, List.flatMap_append, List.flatMap_cons]
    simp only [List.append_assoc]

/-- An acknowledgement as the exchange sends it. -/
def goodAck : Frame where
  version := versionNumber
  msgType := msgOrderAck
  checksum := 0xC0
  body := List.replicate 32 2
  length_lt := by decide

/-- The same frame with a wrong version and no checksum. -/
def corruptedAck : Frame where
  version := 7
  msgType := msgOrderAck
  checksum := 0
  body := List.replicate 32 2
  length_lt := by decide

/-- The good frame arrives in two parts. -/
def goodReads : List (List UInt8) :=
  [goodAck.bytes.take 5, goodAck.bytes.drop 5]

theorem authentic_iff_goodAck :
    ((∀ c ∈ (start listening fun _ => 0).calls goodReads, c.1.Authentic) ↔
      ∀ (before : List Frame) (f : Frame) (rest : List UInt8),
        goodReads.flatten = before.flatMap Frame.bytes ++ f.bytes ++ rest →
          f.Reported listening → f.Checked) ∧
      ∀ received, received <+: goodReads →
        (Transition.run receive (start listening fun _ => 0) received).rpos ≤ rbufSize :=
  authentic_iff rfl _ _ (by decide)

/-- The corrupted frame is passed on as an acknowledgement. -/
theorem not_authentic_corruptedAck :
    ¬∀ (gateway : BinaryProtocolGateway), gateway.connected = true →
      ∀ (rbuf : Memory) (chunks : List (List UInt8)),
        Transition.Admissible receive Fits (start gateway rbuf) chunks →
          ∀ c ∈ (start gateway rbuf).calls chunks, c.1.Authentic := by
  intro h
  exact absurd (h listening rfl (fun _ => 0) [corruptedAck.bytes] (by decide)) (by decide)

end BinaryReceiver

end QuantTrade
