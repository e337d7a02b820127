import QuantTrade.Connectivity.BinaryReceive

/-!
# When the receive buffer is full

A frame can be a little longer than the buffer that `run` receives it in.  It stays incomplete there
until the buffer is full; `recv` is asked for no bytes then, returns 0, and the loop takes this for
a disconnect.  So there is room at every `recv` exactly when no such frame has filled the buffer
(`hasRoom_iff`).
-/

namespace QuantTrade

namespace BinaryReceiver

open BinaryProtocolGateway

/-- The free space that is passed to `recv`, `sizeof(rbuf) - rpos`, is positive. -/
def HasRoom (r : BinaryReceiver) : Prop :=
  0 < rbufSize - r.rpos

/-- What the reads so far led to: the frames that were handled are no longer than the buffer, and
the data in the buffer are an incomplete frame. -/
structure Buffered (frames : List Frame) (received : List UInt8) (r : BinaryReceiver) : Prop where
  cut : ∃ done left, frames = done ++ left ∧ received = done.flatMap Frame.bytes ++ r.data ∧
    Framing.Incomplete Frame.bytes left r.data ∧ ∀ f ∈ done, f.bytes.length ≤ rbufSize
  connected : r.gateway.connected = true
  rpos_le : r.rpos ≤ rbufSize

variable {r : BinaryReceiver} {frames : List Frame}

lemma buffered_start {gateway : BinaryProtocolGateway} (hconn : gateway.connected = true)
    (rbuf : Memory) (frames : List Frame) : Buffered frames [] (start gateway rbuf) where
  cut := ⟨[], frames, rfl, rfl, Framing.incomplete_nil Frame.bytes_ne_nil, by simp⟩
  connected := hconn
  rpos_le := Nat.zero_le _

/-- A read that fits completes only frames that fit. -/
lemma buffered_receive {received chunk : List UInt8} (h : Buffered frames received r)
    (hfits : r.Fits chunk) (hstream : received ++ chunk <+: frames.flatMap Frame.bytes) :
    Buffered frames (received ++ chunk) (r.receive chunk) := by
  obtain ⟨⟨done, left, rfl, rfl, -, hsmall⟩, hconn, hle⟩ := h
  rw [List.append_assoc, List.flatMap_append, List.prefix_append_right_inj] at hstream
  obtain ⟨done', left', rfl, hdata, hrest, hparsed⟩ := exists_parsed_receive hconn hstream
  refine ⟨⟨done ++ done', left', (List.append_assoc ..).symm, ?_, hrest, ?_⟩,
    hparsed.connected.trans hconn, rpos_receive_le hfits hle⟩
  · rw [List.append_assoc, hdata, List.flatMap_append, List.append_assoc]
  · intro f hf
    rcases List.mem_append.mp hf with hold | hnew
    · exact hsmall f hold
    · -- a new frame was in the buffer as a whole
      have hpart : f.bytes.length ≤ (done'.flatMap Frame.bytes).length :=
        (List.sublist_flatten_of_mem (List.mem_map_of_mem hnew)).length_le
      have hall := congrArg List.length hdata
      rw [List.length_append, List.length_append, length_data] at hall
      have hroom := hfits.2
      omega

/-- The reads of a run. -/
lemma buffered_run {received : List UInt8} {chunks : List (List UInt8)}
    (h : Buffered frames received r) (hfits : Transition.Admissible receive Fits r chunks)
    (hstream : received ++ chunks.flatten <+: frames.flatMap Frame.bytes) :
    Buffered frames (received ++ chunks.flatten) (Transition.run receive r chunks) := by
  induction chunks generalizing received r with
  | nil => simpa using h
  | cons chunk chunks ih =>
    rw [List.flatten_cons, ← List.append_assoc] at hstream ⊢
    exact ih (buffered_receive h hfits.1 ((List.prefix_append _ _).trans hstream)) hfits.2 hstream

/-- The buffer is full exactly when it holds the beginning of a frame that is too long for it. -/
lemma Buffered.hasRoom_iff {received : List UInt8} (h : Buffered frames received r) :
    r.HasRoom ↔ ∀ before f after, frames = before ++ f :: after → rbufSize < f.bytes.length →
      received.length < (before.flatMap Frame.bytes).length + rbufSize := by
  obtain ⟨⟨done, left, rfl, rfl, hrest, hsmall⟩, -, hle⟩ := h
  rw [HasRoom, Nat.sub_pos_iff_lt, List.length_append, length_data]
  constructor
  · intro hroom before f after hsplit hlong
    have hdone : done <+: before := by
      have hnot : ¬before ++ [f] <+: done := by
        intro hpre
        have hmem := hpre.subset (List.mem_append_right before List.mem_cons_self)
        exact absurd (hsmall f hmem) (not_le.mpr hlong)
      have hfirst : done <+: before ++ f :: after := hsplit ▸ List.prefix_append done left
      have hsecond : before ++ [f] <+: before ++ f :: after :=
        (List.prefix_append_right_inj before).mpr (List.cons_prefix_cons.mpr ⟨rfl, List.nil_prefix⟩)
      have hpre := (List.prefix_or_prefix_of_prefix hfirst hsecond).resolve_right hnot
      rcases List.prefix_concat_iff.mp hpre with heq | hpre
      · exact absurd (heq ▸ List.prefix_rfl) hnot
      · exact hpre
    obtain ⟨tail, rfl⟩ := hdone
    rw [List.flatMap_append, List.length_append]
    omega
  · intro hcond
    by_contra hfull
    cases left with
    | nil =>
      have hzero := congrArg List.length (show r.data = [] from hrest)
      rw [length_data, List.length_nil] at hzero
      rw [hzero] at hfull
      exact hfull (by decide)
    | cons f left =>
      have hlong := hrest.2
      rw [length_data] at hlong
      have hlt := hcond done f left rfl (by omega)
      omega

/-- **Room for the next read.**  Let the bytes received so far be the beginning of a stream of
frames with the right magic, split into reads in any way that fits the buffer.  Each call of `recv`
had room exactly when no frame of more than 65536 bytes has arrived with its first 65536. -/
theorem hasRoom_run_iff {gateway : BinaryProtocolGateway} (hconn : gateway.connected = true)
    (rbuf : Memory) (frames : List Frame) (chunks : List (List UInt8))
    (hstream : chunks.flatten <+: frames.flatMap Frame.bytes)
    (hfits : Transition.Admissible receive Fits (start gateway rbuf) chunks) :
    (∀ received, received <+: chunks →
        let r := Transition.run receive (start gateway rbuf) received
        r.gateway.connected = true → r.HasRoom) ↔
      ∀ before f after, frames = before ++ f :: after → rbufSize < f.bytes.length →
        chunks.flatten.length < (before.flatMap Frame.bytes).length + rbufSize := by
  have hbuffered : ∀ received, received <+: chunks →
      Buffered frames received.flatten
        (Transition.run receive (start gateway rbuf) received) := by
    rintro received ⟨rest, rfl⟩
    rw [List.flatten_append] at hstream
    exact buffered_run (buffered_start hconn rbuf frames) hfits.of_append
      ((List.prefix_append _ _).trans hstream)
  constructor
  · intro h
    have hall := hbuffered chunks List.prefix_rfl
    exact hall.hasRoom_iff.mp (h chunks List.prefix_rfl hall.connected)
  · intro h received hpre r _
    refine (hbuffered received hpre).hasRoom_iff.mpr fun before f after hsplit hlong => ?_
    have hle : received.flatten.length ≤ chunks.flatten.length := by
      obtain ⟨rest, rfl⟩ := hpre
      rw [List.flatten_append, List.length_append]
      omega
    exact hle.trans_lt (h before f after hsplit hlong)

/-- The rule at a stream of two short frames. -/
theorem hasRoom_run_iff_shortStream :
    (∀ received, received <+: shortReads →
        let r := Transition.run receive (start listening fun _ => 0) received
        r.gateway.connected = true → r.HasRoom) ↔
      ∀ before f after, shortStream = before ++ f :: after → rbufSize < f.bytes.length →
        shortReads.flatten.length < (before.flatMap Frame.bytes).length + rbufSize :=
  hasRoom_run_iff rfl (fun _ => 0) shortStream shortReads (by decide) (by decide)

/-- The beginning of a frame that is longer than the buffer fills the buffer. -/
lemma not_hasRoom_of_long {f : Frame} (hlong : rbufSize < f.bytes.length) :
    let reads := [f.bytes.take rbufSize]
    let r := Transition.run receive (start listening fun _ => 0) reads
    reads.flatten <+: [f].flatMap Frame.bytes ∧
      Transition.Admissible receive Fits (start listening fun _ => 0) reads ∧
        r.gateway.connected = true ∧ ¬r.HasRoom := by
  intro reads r
  have hchunk : (f.bytes.take rbufSize).length = rbufSize := by
    rw [List.length_take]
    exact Nat.min_eq_left hlong.le
  have hfits : Transition.Admissible receive Fits (start listening fun _ => 0) reads := by
    refine ⟨⟨?_, hchunk.le⟩, trivial⟩
    rw [← List.length_pos_iff, hchunk, rbufSize]
    omega
  have hstream : reads.flatten <+: [f].flatMap Frame.bytes := by
    rw [List.flatten_singleton, List.flatMap_singleton]
    exact List.take_prefix _ _
  have hfull := buffered_run (buffered_start rfl (fun _ => 0) [f]) hfits hstream
  refine ⟨hstream, hfits, hfull.connected, fun hroom => ?_⟩
  have hlt := hfull.hasRoom_iff.mp hroom [] f [] rfl hlong
  rw [List.nil_append, List.flatten_singleton, hchunk, List.flatMap_nil, List.length_nil] at hlt
  omega

/-- A frame that is a byte longer than the buffer. -/
def longFrame : Frame where
  version := versionNumber
  msgType := msgOrderFill
  checksum := 0
  body := List.replicate 65529 0
  length_lt := (List.length_replicate ..).trans_lt (by decide)

/-- The first 65536 bytes of this frame fill the buffer. -/
theorem not_hasRoom_longFrame :
    ¬∀ (gateway : BinaryProtocolGateway), gateway.connected = true →
      ∀ (rbuf : Memory) (frames : List Frame) (chunks : List (List UInt8)),
        chunks.flatten <+: frames.flatMap Frame.bytes →
        Transition.Admissible receive Fits (start gateway rbuf) chunks →
        ∀ received, received <+: chunks →
          let r := Transition.run receive (start gateway rbuf) received
          r.gateway.connected = true → r.HasRoom := by
  intro h
  have hbody : longFrame.body.length = 65529 := List.length_replicate
  have hlong : rbufSize < longFrame.bytes.length := by
    rw [Frame.length_bytes, hbody, rbufSize]
    omega
  obtain ⟨hstream, hfits, hconnected, hfull⟩ := not_hasRoom_of_long hlong
  exact hfull
    (h listening rfl (fun _ => 0) [longFrame] _ hstream hfits _ List.prefix_rfl hconnected)

end BinaryReceiver

end QuantTrade
