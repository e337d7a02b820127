import QuantTrade.Connectivity.BinaryProtocol
import QuantTrade.Connectivity.FixMessage
import QuantTrade.Library.Framing
import QuantTrade.Library.Transition

/-!
# The receive loop of the binary gateway

`BinaryProtocolGateway::run`: what arrives is appended to the buffer; while there is a complete
message at the front of the buffer, it is handled and what follows is moved to the front.

However the stream is split into reads, the callbacks get the acknowledgements and fills of the
frames of the stream, and between two reads the buffer holds the bytes after the last complete frame
(`reassembly`).
-/

namespace QuantTrade

namespace BinaryProtocolGateway

/-- `FillEvent` as it is passed to the callback: the side is the byte of the message, which is not
checked. -/
structure RawFill where
  clientOrderId : ℕ
  exchangeOrderId : ℕ
  instrumentId : ℕ
  side : UInt8
  fillPrice : ℤ
  fillQty : ℤ
  remainingQty : ℤ
  fillTsNs : ℕ
  deriving DecidableEq, Repr

/-- A call of one of the callbacks. -/
inductive Event where
  | ack (ack : OrderAck)
  | fill (fill : RawFill)
  deriving DecidableEq, Repr

end BinaryProtocolGateway

/-- The gateway: the connection, the last round trip, which callbacks are registered and the calls
they got, the messages that `run` itself sends, and the time stamp counter with the number of times
it was read. -/
structure BinaryProtocolGateway where
  connected : Bool
  lastRttNs : ℕ
  ackCb : Bool
  fillCb : Bool
  events : List BinaryProtocolGateway.Event
  sends : List BinaryProtocolGateway.Message
  rdtscNs : ℕ → ℕ
  rdtscReads : ℕ

namespace BinaryProtocolGateway

/-! ## Handling a message -/

/-- The value that `handle_ack` passes on: only the status 0 is an acceptance. -/
def AckBody.orderAck (ack : AckBody) : OrderAck where
  clientOrderId := ack.clientOrderId
  exchangeOrderId := ack.exchangeOrderId
  status := if ack.status = 0 then .new else .rejected
  ackTsNs := ack.timestampNs

/-- `handle_ack`. -/
def handleAck (g : BinaryProtocolGateway) (ack : AckBody) : BinaryProtocolGateway :=
  if g.ackCb then { g with events := g.events ++ [.ack ack.orderAck] } else g

/-- The value that `handle_fill` passes on. -/
def FillBody.rawFill (fill : FillBody) : RawFill where
  clientOrderId := fill.clientOrderId
  exchangeOrderId := fill.exchangeOrderId
  instrumentId := fill.instrumentId
  side := fill.side
  fillPrice := fill.fillPrice
  fillQty := fill.fillQty
  remainingQty := fill.remainingQty
  fillTsNs := fill.timestampNs

/-- `handle_fill`. -/
def handleFill (g : BinaryProtocolGateway) (fill : FillBody) : BinaryProtocolGateway :=
  if g.fillCb then { g with events := g.events ++ [.fill fill.rawFill] } else g

/-- A heartbeat: the round trip is taken from the length of the body, and one is sent back. -/
def handleHeartbeat (g : BinaryProtocolGateway) (bodyLen : ℕ) : BinaryProtocolGateway :=
  { g with
    lastRttNs := toUnsigned 64 ((g.rdtscNs g.rdtscReads : ℤ) - bodyLen)
    rdtscReads := g.rdtscReads + 1
    sends := g.sends ++ [{ msgType := msgHeartbeat, body := [] }] }

/-- `n` bytes of the memory. -/
def readBytes (mem : Memory) (first n : ℕ) : List UInt8 :=
  (List.range n).map fun k => mem (first + k)

/-- The `switch` of `run`: the body is behind the header at the front of the buffer. -/
def handleMessage (g : BinaryProtocolGateway) (hdr : MsgHeader) (rbuf : Memory) :
    BinaryProtocolGateway :=
  if hdr.msgType = msgOrderAck then
    if ackBodySize ≤ hdr.bodyLen.toNat then
      g.handleAck (AckBody.ofBytes (readBytes rbuf 8 ackBodySize))
    else g
  else if hdr.msgType = msgOrderFill then
    if fillBodySize ≤ hdr.bodyLen.toNat then
      g.handleFill (FillBody.ofBytes (readBytes rbuf 8 fillBodySize))
    else g
  else if hdr.msgType = msgHeartbeat then g.handleHeartbeat hdr.bodyLen.toNat
  else g

end BinaryProtocolGateway

/-- The local variables of `run`. -/
structure BinaryReceiver where
  gateway : BinaryProtocolGateway
  rbuf : Memory
  rpos : ℕ

namespace BinaryReceiver

open BinaryProtocolGateway

/-- The start of `run`: the buffer is not initialized. -/
def start (gateway : BinaryProtocolGateway) (rbuf : Memory) : BinaryReceiver where
  gateway := gateway
  rbuf := rbuf
  rpos := 0

/-- The header at the front of the buffer. -/
def header (r : BinaryReceiver) : MsgHeader :=
  MsgHeader.ofBytes (readBytes r.rbuf 0 8)

/-- The size of the message at the front of the buffer. -/
def msgLen (r : BinaryReceiver) : ℕ :=
  8 + r.header.bodyLen.toNat

/-- The message at the front is handled, and the data behind it is moved to the front. -/
def consume (r : BinaryReceiver) : BinaryReceiver where
  gateway := r.gateway.handleMessage r.header r.rbuf
  rbuf := fun i => if i < r.rpos - r.msgLen then r.rbuf (r.msgLen + i) else r.rbuf i
  rpos := r.rpos - r.msgLen

/-- The inner loop; every iteration consumes at least the 8 bytes of a header, so `rpos` iterations
are enough (`settled_parse`). -/
def parse : ℕ → BinaryReceiver → BinaryReceiver
  | 0, r => r
  | fuel + 1, r =>
    if r.rpos < 8 then r
    else if r.header.magic ≠ magicNumber then
      { r with gateway := { r.gateway with connected := false } }
    else if r.rpos < r.msgLen then r
    else parse fuel r.consume

/-- `recv` puts the bytes behind the data. -/
def append (r : BinaryReceiver) (chunk : List UInt8) : BinaryReceiver :=
  { r with
    rbuf := fun i => if r.rpos ≤ i then (chunk[i - r.rpos]?).getD (r.rbuf i) else r.rbuf i
    rpos := r.rpos + chunk.length }

/-- One iteration of the outer loop, in which `recv` returns the bytes of `chunk`. -/
def receive (r : BinaryReceiver) (chunk : List UInt8) : BinaryReceiver :=
  if r.gateway.connected then parse (r.append chunk).rpos (r.append chunk) else r

/-- `recv` returned nothing more. -/
def finish (r : BinaryReceiver) : BinaryReceiver :=
  { r with gateway := { r.gateway with connected := false } }

/-- `run`, with the results of `recv` one after the other. -/
def run (gateway : BinaryProtocolGateway) (rbuf : Memory) (chunks : List (List UInt8)) :
    BinaryReceiver :=
  (Transition.run receive (start gateway rbuf) chunks).finish

/-- `recv` returns at least a byte, and not more than there is room for. -/
def Fits (r : BinaryReceiver) (chunk : List UInt8) : Prop :=
  chunk ≠ [] ∧ chunk.length ≤ rbufSize - r.rpos

instance (r : BinaryReceiver) : DecidablePred r.Fits :=
  fun _ => inferInstanceAs (Decidable (_ ∧ _))

/-- The bytes received and not yet consumed. -/
def data (r : BinaryReceiver) : List UInt8 :=
  readBytes r.rbuf 0 r.rpos

end BinaryReceiver

namespace BinaryProtocolGateway

/-! ## Frames -/

/-- A frame with the right magic; nothing is asked of its version and checksum. -/
structure Frame where
  version : UInt8
  msgType : UInt8
  checksum : UInt16
  body : List UInt8
  length_lt : body.length < 2 ^ 16

/-- The header of the frame. -/
def Frame.header (f : Frame) : MsgHeader where
  magic := magicNumber
  version := f.version
  msgType := f.msgType
  bodyLen := UInt16.ofNat f.body.length
  checksum := f.checksum

/-- The bytes of the frame. -/
def Frame.bytes (f : Frame) : List UInt8 :=
  f.header.bytes ++ f.body

/-- What the frame says: an acknowledgement or a fill, when its body is long enough for one. -/
def Frame.event (f : Frame) : Option Event :=
  if f.msgType = msgOrderAck ∧ ackBodySize ≤ f.body.length then
    some (.ack (AckBody.ofBytes (f.body.take ackBodySize)).orderAck)
  else if f.msgType = msgOrderFill ∧ fillBodySize ≤ f.body.length then
    some (.fill (FillBody.ofBytes (f.body.take fillBodySize)).rawFill)
  else none

/-- There is a callback for the event. -/
def registered (g : BinaryProtocolGateway) : Event → Bool
  | .ack _ => g.ackCb
  | .fill _ => g.fillCb

@[simp] lemma Frame.length_bytes (f : Frame) : f.bytes.length = 8 + f.body.length := by
  simp [bytes]

lemma Frame.bytes_ne_nil (f : Frame) : f.bytes ≠ [] := by
  rw [← List.length_pos_iff, length_bytes]
  omega

lemma Frame.toNat_bodyLen (f : Frame) : f.header.bodyLen.toNat = f.body.length := by
  rw [header, UInt16.toNat_ofNat', Nat.mod_eq_of_lt f.length_lt]

/-- The header is the first 8 bytes of a frame. -/
lemma Frame.take_bytes (f : Frame) : f.bytes.take 8 = f.header.bytes := by
  rw [bytes, List.take_append_of_le_length (by simp), List.take_of_length_le (by simp)]

@[simp] lemma length_readBytes (mem : Memory) (first n : ℕ) :
    (readBytes mem first n).length = n := by
  simp [readBytes]

/-- Reading a part of what was read. -/
lemma take_drop_readBytes (mem : Memory) (first offset : ℕ) {size n : ℕ} (h : offset + size ≤ n) :
    ((readBytes mem first n).drop offset).take size = readBytes mem (first + offset) size := by
  apply List.ext_getElem
  · simp
    omega
  · intro i _ _
    simp [readBytes, add_assoc]

/-- A message changes nothing of the gateway but its statistics and the calls of the callbacks. -/
lemma handleMessage_frame (g : BinaryProtocolGateway) (hdr : MsgHeader) (rbuf : Memory) :
    (g.handleMessage hdr rbuf).connected = g.connected ∧
      (g.handleMessage hdr rbuf).ackCb = g.ackCb ∧
      (g.handleMessage hdr rbuf).fillCb = g.fillCb := by
  unfold handleMessage handleAck handleFill handleHeartbeat
  split_ifs <;> exact ⟨rfl, rfl, rfl⟩

/-- The callbacks get what a frame says. -/
lemma events_handleMessage (g : BinaryProtocolGateway) {f : Frame} {rbuf : Memory}
    (hbody : readBytes rbuf 8 f.body.length = f.body) :
    (g.handleMessage f.header rbuf).events = g.events ++ f.event.toList.filter g.registered := by
  have hread : ∀ n ≤ f.body.length, readBytes rbuf 8 n = f.body.take n := by
    intro n hn
    have hpart := take_drop_readBytes rbuf 8 0 (show 0 + n ≤ f.body.length by omega)
    rw [hbody] at hpart
    exact hpart.symm
  have htype : f.header.msgType = f.msgType := rfl
  unfold handleMessage Frame.event
  rw [f.toNat_bodyLen, htype]
  by_cases hack : f.msgType = msgOrderAck
  · by_cases hlen : ackBodySize ≤ f.body.length
    · cases hcb : g.ackCb <;> simp [hack, hlen, handleAck, hcb, hread _ hlen, registered]
    · have hother : msgOrderAck ≠ msgOrderFill := by decide
      simp [hack, hlen, hother]
  · by_cases hfill : f.msgType = msgOrderFill
    · have hother : msgOrderFill ≠ msgOrderAck := by decide
      by_cases hlen : fillBodySize ≤ f.body.length
      · cases hcb : g.fillCb <;>
          simp [hfill, hlen, handleFill, hcb, hread _ hlen, registered, hother]
      · simp [hfill, hlen, hother]
    · simp only [hack, hfill, false_and, if_false]
      split_ifs <;> simp [handleHeartbeat]

end BinaryProtocolGateway

namespace BinaryReceiver

open BinaryProtocolGateway

/-! ## The buffer as a list -/

variable {r : BinaryReceiver}

lemma length_data (r : BinaryReceiver) : r.data.length = r.rpos :=
  length_readBytes ..

/-- What is received follows the data. -/
lemma data_append (r : BinaryReceiver) (chunk : List UInt8) :
    (r.append chunk).data = r.data ++ chunk := by
  apply List.ext_getElem
  · simp [data, append]
  · intro i hi _
    have hlt : i < r.rpos + chunk.length := by simpa [data, append] using hi
    rcases Nat.lt_or_ge i r.rpos with hold | hnew
    · have hnot : ¬r.rpos ≤ i := by omega
      rw [List.getElem_append_left (by rw [length_data]; exact hold)]
      simp [data, append, readBytes, hnot]
    · have hget : chunk[i - r.rpos]? = some chunk[i - r.rpos] :=
        List.getElem?_eq_getElem (by omega)
      rw [List.getElem_append_right (by rw [length_data]; exact hnew)]
      simp [data, append, readBytes, hnew, hget]

/-- A message that is handled is gone. -/
lemma data_consume (r : BinaryReceiver) : r.consume.data = r.data.drop r.msgLen := by
  apply List.ext_getElem
  · simp [data, consume]
  · intro i hi _
    have hlt : i < r.rpos - r.msgLen := by simpa [data, consume] using hi
    simp [data, consume, readBytes, hlt]

/-- The header is at the front of the data. -/
lemma header_of_data {f : Frame} (hlen : 8 ≤ r.rpos) (hdata : r.data.take 8 = f.header.bytes) :
    r.header = f.header := by
  have hread := take_drop_readBytes r.rbuf 0 0 (show 0 + 8 ≤ r.rpos from hlen)
  rw [header, ← hread, List.drop_zero]
  exact (congrArg MsgHeader.ofBytes hdata).trans (MsgHeader.ofBytes_bytes _)

lemma msgLen_of_header {f : Frame} (h : r.header = f.header) : r.msgLen = f.bytes.length := by
  rw [msgLen, h, f.toNat_bodyLen, f.length_bytes]

/-! ## The inner loop -/

/-- The loop has nothing more to do: the connection is gone, or there is no complete message. -/
def Settled (r : BinaryReceiver) : Prop :=
  r.gateway.connected = false ∨ r.rpos < 8 ∨ r.rpos < r.msgLen

/-- A message is at least as long as its header, so it takes a byte at least. -/
lemma rpos_consume_le {fuel : ℕ} (h : r.rpos ≤ fuel + 1) : r.consume.rpos ≤ fuel := by
  have hle : 8 ≤ r.msgLen := Nat.le_add_right ..
  simp only [consume]
  omega

/-- The iterations are enough, whatever the bytes are. -/
lemma settled_parse {fuel : ℕ} (h : r.rpos ≤ fuel) : (parse fuel r).Settled := by
  induction fuel generalizing r with
  | zero =>
    rw [parse]
    exact Or.inr (Or.inl (by omega))
  | succ fuel ih =>
    rw [parse]
    split_ifs with hshort hmagic hlen
    · exact Or.inr (Or.inl hshort)
    · exact Or.inl rfl
    · exact Or.inr (Or.inr hlen)
    · exact ih (rpos_consume_le h)

/-- The loop stops at an incomplete frame. -/
lemma parse_of_incomplete (fuel : ℕ) {left : List Frame}
    (h : Framing.Incomplete Frame.bytes left r.data) : parse fuel r = r := by
  cases fuel with
  | zero => rfl
  | succ fuel =>
    rw [parse]
    by_cases hshort : r.rpos < 8
    · rw [if_pos hshort]
    · cases left with
      | nil =>
        have hzero : r.data.length = 0 := by rw [show r.data = [] from h, List.length_nil]
        rw [length_data] at hzero
        omega
      | cons f left =>
        obtain ⟨⟨tail, htail⟩, hlt⟩ := h
        have hhead : r.data.take 8 = f.header.bytes := by
          rw [← f.take_bytes, ← htail, List.take_append_of_le_length]
          rw [length_data]
          omega
        have hheader := header_of_data (by omega) hhead
        have hmagic : r.header.magic = magicNumber := by rw [hheader]; rfl
        rw [length_data, ← msgLen_of_header hheader] at hlt
        rw [if_neg hshort, if_neg (not_not.mpr hmagic), if_pos hlt]

/-- An iteration handles the frame at the front. -/
lemma parse_of_frame (fuel : ℕ) {f : Frame} {rest : List UInt8} (hdata : r.data = f.bytes ++ rest) :
    parse (fuel + 1) r = parse fuel r.consume ∧ r.consume.data = rest ∧
      r.consume.gateway.events =
        r.gateway.events ++ f.event.toList.filter r.gateway.registered := by
  have hrpos : r.rpos = f.bytes.length + rest.length := by
    rw [← length_data, hdata, List.length_append]
  have hlen := f.length_bytes
  have hhead : r.data.take 8 = f.header.bytes := by
    rw [hdata, List.take_append_of_le_length (by omega), f.take_bytes]
  have hheader := header_of_data (by omega) hhead
  have hmsgLen := msgLen_of_header hheader
  have hbody : readBytes r.rbuf 8 f.body.length = f.body := by
    have hread := take_drop_readBytes r.rbuf 0 8 (show 8 + f.body.length ≤ r.rpos by omega)
    rw [zero_add] at hread
    rw [← hread, show readBytes r.rbuf 0 r.rpos = r.data from rfl, hdata, Frame.bytes,
      List.append_assoc, List.drop_left' f.header.length_bytes, List.take_left]
  refine ⟨?_, ?_, ?_⟩
  · have hmagic : r.header.magic = magicNumber := by rw [hheader]; rfl
    rw [parse, if_neg (by omega), if_neg (not_not.mpr hmagic), if_neg (by omega)]
  · rw [data_consume, hmsgLen, hdata, List.drop_left]
  · rw [consume, hheader]
    exact events_handleMessage _ hbody

/-- What a pass over the buffer leads to. -/
structure Parsed (r : BinaryReceiver) (done : List Frame) (rest : List UInt8)
    (r' : BinaryReceiver) : Prop where
  data : r'.data = rest
  events : r'.gateway.events =
    r.gateway.events ++ (done.filterMap Frame.event).filter r.gateway.registered
  registered : r'.gateway.registered = r.gateway.registered
  connected : r'.gateway.connected = r.gateway.connected

/-- A pass over the buffer handles the complete frames and leaves the rest. -/
lemma parsed_parse {fuel : ℕ} {done left : List Frame} {rest : List UInt8}
    (hdata : r.data = done.flatMap Frame.bytes ++ rest)
    (hrest : Framing.Incomplete Frame.bytes left rest) (hfuel : r.rpos ≤ fuel) :
    Parsed r done rest (parse fuel r) := by
  induction done generalizing r fuel with
  | nil =>
    rw [List.flatMap_nil, List.nil_append] at hdata
    rw [parse_of_incomplete fuel (hdata ▸ hrest)]
    exact ⟨hdata, by simp, rfl, rfl⟩
  | cons f done ih =>
    rw [List.flatMap_cons, List.append_assoc] at hdata
    have hlen : 8 ≤ r.rpos := by
      rw [← length_data, hdata, List.length_append, f.length_bytes]
      omega
    obtain ⟨fuel, rfl⟩ := Nat.exists_eq_add_of_le (show 1 ≤ fuel by omega)
    obtain ⟨hparse, hdata', hevents⟩ := parse_of_frame fuel hdata
    obtain ⟨hconn, hack, hfill⟩ := r.gateway.handleMessage_frame r.header r.rbuf
    have hreg : r.consume.gateway.registered = r.gateway.registered := by
      funext e
      cases e with
      | ack a => exact hack
      | fill f => exact hfill
    have hfuel' : r.consume.rpos ≤ fuel := rpos_consume_le (by omega)
    have hind := ih hdata' hfuel'
    rw [Nat.add_comm 1 fuel, hparse]
    refine ⟨hind.data, ?_, hind.registered.trans hreg, hind.connected.trans hconn⟩
    rw [hind.events, hevents, hreg, List.append_assoc, ← List.filter_append]
    cases hev : f.event <;> simp [hev]

/-! ## The run -/

/-- The chunks received so far are the complete frames that were handled and the data in the
buffer. -/
structure Reassembled (gateway : BinaryProtocolGateway) (frames : List Frame)
    (received : List (List UInt8)) (r : BinaryReceiver) : Prop where
  cut : ∃ done left, frames = done ++ left ∧
    received.flatten = done.flatMap Frame.bytes ++ r.data ∧
    Framing.Incomplete Frame.bytes left r.data ∧
    r.gateway.events = gateway.events ++ (done.filterMap Frame.event).filter gateway.registered
  registered : r.gateway.registered = gateway.registered
  connected : r.gateway.connected = true

lemma reassembled_start {gateway : BinaryProtocolGateway} (hconn : gateway.connected = true)
    (rbuf : Memory) (frames : List Frame) :
    Reassembled gateway frames [] (start gateway rbuf) where
  cut := ⟨[], frames, rfl, rfl, Framing.incomplete_nil Frame.bytes_ne_nil, by simp [start]⟩
  registered := rfl
  connected := hconn

/-- A read hands the frames that are complete now to the gateway, and keeps the rest. -/
lemma exists_parsed_receive {left : List Frame} {chunk : List UInt8}
    (hconn : r.gateway.connected = true) (hstream : r.data ++ chunk <+: left.flatMap Frame.bytes) :
    ∃ done left', left = done ++ left' ∧
      r.data ++ chunk = done.flatMap Frame.bytes ++ (r.receive chunk).data ∧
      Framing.Incomplete Frame.bytes left' (r.receive chunk).data ∧
      Parsed (r.append chunk) done (r.receive chunk).data (r.receive chunk) := by
  obtain ⟨done, left', rest, hleft, hdata, hrest⟩ := Framing.exists_cut Frame.bytes hstream
  have hparsed : Parsed (r.append chunk) done rest (r.receive chunk) := by
    rw [BinaryReceiver.receive, if_pos hconn]
    exact parsed_parse ((data_append r chunk).trans hdata) hrest le_rfl
  obtain rfl := hparsed.data
  exact ⟨done, left', hleft, hdata, hrest, hparsed⟩

/-- A read keeps the frames together. -/
lemma reassembled_receive {gateway : BinaryProtocolGateway} {frames : List Frame}
    {received : List (List UInt8)} {chunk : List UInt8} (h : Reassembled gateway frames received r)
    (hstream : (received ++ [chunk]).flatten <+: frames.flatMap Frame.bytes) :
    Reassembled gateway frames (received ++ [chunk]) (r.receive chunk) := by
  obtain ⟨⟨done, left, rfl, hreceived, -, hevents⟩, hreg, hconn⟩ := h
  have hflat : (received ++ [chunk]).flatten = done.flatMap Frame.bytes ++ (r.data ++ chunk) := by
    rw [List.flatten_append, hreceived, List.append_assoc]
    simp
  rw [hflat, List.flatMap_append, List.prefix_append_right_inj] at hstream
  obtain ⟨done', left', rfl, hdata, hrest, hparsed⟩ := exists_parsed_receive hconn hstream
  constructor
  · refine ⟨done ++ done', left', (List.append_assoc ..).symm, ?_, hrest, ?_⟩
    · rw [hflat, hdata, List.flatMap_append, List.append_assoc]
    · have happend : (r.append chunk).gateway = r.gateway := rfl
      rw [hparsed.events, happend, hevents, hreg, List.filterMap_append, List.filter_append,
        List.append_assoc]
  · exact hparsed.registered.trans hreg
  · exact hparsed.connected.trans hconn

/-- The frames stay together through any number of reads. -/
lemma reassembled_run {gateway : BinaryProtocolGateway} {frames : List Frame}
    {received chunks : List (List UInt8)} (h : Reassembled gateway frames received r)
    (hstream : (received ++ chunks).flatten <+: frames.flatMap Frame.bytes) :
    Reassembled gateway frames (received ++ chunks) (Transition.run receive r chunks) := by
  induction chunks generalizing received r with
  | nil => rwa [List.append_nil]
  | cons chunk chunks ih =>
    rw [List.append_cons] at hstream ⊢
    refine ih (reassembled_receive h ?_) hstream
    rw [List.flatten_append] at hstream
    exact (List.prefix_append _ _).trans hstream

/-- The data never outgrow the buffer. -/
lemma rpos_parse_le (fuel : ℕ) : (parse fuel r).rpos ≤ r.rpos := by
  induction fuel generalizing r with
  | zero => exact le_rfl
  | succ fuel ih =>
    rw [parse]
    split_ifs
    · exact le_rfl
    · exact le_rfl
    · exact le_rfl
    · exact ih.trans (Nat.sub_le ..)

lemma rpos_receive_le {chunk : List UInt8} (h : r.Fits chunk) (hle : r.rpos ≤ rbufSize) :
    (r.receive chunk).rpos ≤ rbufSize := by
  unfold receive
  split
  · have hparse := rpos_parse_le (r := r.append chunk) (r.append chunk).rpos
    have hfits := h.2
    have happend : (r.append chunk).rpos = r.rpos + chunk.length := rfl
    omega
  · exact hle

/-- As long as `recv` returns what there is room for, the data stay inside the buffer. -/
lemma rpos_run_le {gateway : BinaryProtocolGateway} {rbuf : Memory}
    {chunks received : List (List UInt8)}
    (hfits : Transition.Admissible receive Fits (start gateway rbuf) chunks)
    (hreceived : received <+: chunks) :
    (Transition.run receive (start gateway rbuf) received).rpos ≤ rbufSize := by
  obtain ⟨rest, rfl⟩ := hreceived
  exact Transition.invariant_run (P := fun r : BinaryReceiver => r.rpos ≤ rbufSize)
    (fun _ _ hfit hle => rpos_receive_le hfit hle) hfits.of_append (Nat.zero_le _)

/-- **Reassembly.**  Let a stream of frames be split into reads in any way that fits the buffer.
The callbacks that are registered get the acknowledgements and fills of all its frames, once and in
order; and after each read the buffer holds the bytes received behind the frames that were handled,
which are less than another frame. -/
theorem reassembly {gateway : BinaryProtocolGateway} (hconn : gateway.connected = true)
    (rbuf : Memory) (frames : List Frame) (chunks : List (List UInt8))
    (hstream : chunks.flatten = frames.flatMap Frame.bytes)
    (hfits : Transition.Admissible receive Fits (start gateway rbuf) chunks) :
    (run gateway rbuf chunks).gateway.events =
        gateway.events ++ (frames.filterMap Frame.event).filter gateway.registered ∧
      ∀ received, received <+: chunks →
        let r := Transition.run receive (start gateway rbuf) received
        r.rpos ≤ rbufSize ∧ ∃ done left, frames = done ++ left ∧
          received.flatten = done.flatMap Frame.bytes ++ r.data ∧
          Framing.Incomplete Frame.bytes left r.data ∧
          r.gateway.events =
            gateway.events ++ (done.filterMap Frame.event).filter gateway.registered := by
  have hframed : ∀ received, received <+: chunks →
      Reassembled gateway frames received
        (Transition.run receive (start gateway rbuf) received) := by
    rintro received ⟨rest, rfl⟩
    refine reassembled_run (reassembled_start hconn rbuf frames) ?_
    rw [List.nil_append, ← hstream, List.flatten_append]
    exact List.prefix_append _ _
  constructor
  · obtain ⟨done, left, rfl, hdone, hrest, hevents⟩ := (hframed chunks List.prefix_rfl).cut
    rw [hstream, List.flatMap_append, List.append_cancel_left_eq] at hdone
    obtain ⟨rfl, -⟩ := Framing.eq_nil_of_incomplete hrest hdone.symm
    rw [List.append_nil]
    exact hevents
  · intro received hreceived
    exact ⟨rpos_run_le hfits hreceived, (hframed received hreceived).cut⟩

/-- A connected gateway with both callbacks. -/
def listening : BinaryProtocolGateway where
  connected := true
  lastRttNs := 0
  ackCb := true
  fillCb := true
  events := []
  sends := []
  rdtscNs := fun _ => 0
  rdtscReads := 0

/-- A heartbeat, and an acknowledgement whose fields are all made of ones. -/
def shortStream : List Frame :=
  [⟨1, msgHeartbeat, 0, [], by decide⟩, ⟨1, msgOrderAck, 0, List.replicate 32 1, by decide⟩]

/-- The stream in three reads; the first one ends within the first header, and the second one within
the second. -/
def shortReads : List (List UInt8) :=
  let bytes := shortStream.flatMap Frame.bytes
  [bytes.take 5, (bytes.drop 5).take 6, bytes.drop 11]

/-- The rule at this stream. -/
theorem reassembly_shortStream :
    (run listening (fun _ => 0) shortReads).gateway.events =
        listening.events ++ (shortStream.filterMap Frame.event).filter listening.registered ∧
      ∀ received, received <+: shortReads →
        let r := Transition.run receive (start listening fun _ => 0) received
        r.rpos ≤ rbufSize ∧ ∃ done left, shortStream = done ++ left ∧
          received.flatten = done.flatMap Frame.bytes ++ r.data ∧
          Framing.Incomplete Frame.bytes left r.data ∧
          r.gateway.events =
            listening.events ++ (done.filterMap Frame.event).filter listening.registered :=
  reassembly rfl (fun _ => 0) shortStream shortReads (by decide) (by decide)

end BinaryReceiver

end QuantTrade
