import QuantTrade.MarketData.PcapReplayer

/-!
# Capture files

`open_file` and the loop of `PcapReplayer::replay` in `src/market_data/pcap_replayer.cpp`.  A file
is the list of its bytes, and the position in it is what is left of them.  The clock is the sequence
of its readings, and the buffer on the stack has some bytes in it at the beginning.

A round of the loop reads at least the header of a packet, so the loop ends, and it delivers the
packets of the file one after the other (`loop_eq`).
-/

namespace QuantTrade

/-- The magic number of a capture with microseconds. -/
def pcapMagicLe : UInt32 := 0xa1b2c3d4

/-- The magic number of a capture with nanoseconds. -/
def pcapMagicNs : UInt32 := 0xa1b23c4d

/-- The magic number of a capture with microseconds, in the other byte order. -/
def pcapMagicBeLe : UInt32 := 0xd4c3b2a1

/-- The bytes of the headers in front of a payload. -/
def l2l3l4Offset : ℕ := 14 + 20 + 8

/-- `sizeof(PcapGlobalHeader)`. -/
def sizeofPcapGlobalHeader : ℕ := 24

/-- `sizeof(PcapPktHeader)`. -/
def sizeofPcapPktHeader : ℕ := 16

/-- `sizeof(pkt_buf)`. -/
def sizeofPktBuf : ℕ := 65536

/-- `bswap32`. -/
def bswap32 (v : UInt32) : UInt32 :=
  ((v &&& (0xFF : UInt32)) <<< (24 : UInt32)) ||| ((v &&& (0xFF00 : UInt32)) <<< (8 : UInt32)) |||
    ((v >>> (8 : UInt32)) &&& (0xFF00 : UInt32)) ||| ((v >>> (24 : UInt32)) &&& (0xFF : UInt32))

/-- `PcapPktHeader`. -/
structure PcapPktHeader where
  tsSec : UInt32
  tsUsec : UInt32
  inclLen : UInt32
  origLen : UInt32
  deriving DecidableEq

namespace PcapPktHeader

/-- The struct with these bytes. -/
def ofBytes (bytes : List UInt8) : PcapPktHeader where
  tsSec := readU32 bytes 0
  tsUsec := readU32 bytes 4
  inclLen := readU32 bytes 8
  origLen := readU32 bytes 12

/-- All fields in the other byte order. -/
def bswap (ph : PcapPktHeader) : PcapPktHeader where
  tsSec := bswap32 ph.tsSec
  tsUsec := bswap32 ph.tsUsec
  inclLen := bswap32 ph.inclLen
  origLen := bswap32 ph.origLen

/-- A header as it is read from a file of this byte order. -/
def read (swapEndian : Bool) (bytes : List UInt8) : PcapPktHeader :=
  if swapEndian then (ofBytes bytes).bswap else ofBytes bytes

end PcapPktHeader

/-- `PcapReplayer::Mode`. -/
inductive ReplayMode where
  | realtime
  | fastest
  deriving DecidableEq, Repr

/-- A packet that was read: its header, in the byte order of the machine, and its bytes. -/
structure PcapPacket where
  header : PcapPktHeader
  data : List UInt8
  deriving DecidableEq

/-- A replay: the members of the replayer, the variables of `replay`, how often the clock was read,
and what was done, packet by packet: how long it slept, and what the callbacks got. -/
structure Replay where
  replayer : PcapReplayer
  mode : ReplayMode
  nanoTs : Bool
  swapEndian : Bool
  pktsReplayed : ℕ
  firstPktTsNs : UInt64
  firstWallNs : UInt64
  firstPacket : Bool
  pktBuf : ℕ → UInt8
  clockReads : ℕ
  sleeps : List ℕ
  calls : List ReplayCalls

namespace Replay

/-! ## Reading the file -/

/-- `open_file`: the resolution and the byte order of the file, and what is left of it. -/
def openFile (file : List UInt8) : Option (Bool × Bool × List UInt8) :=
  let header := file.take sizeofPcapGlobalHeader
  let rest := file.drop sizeofPcapGlobalHeader
  if header.length ≠ sizeofPcapGlobalHeader then none
  else
    let magicNumber := readU32 header 0
    if magicNumber = pcapMagicLe then some (false, false, rest)
    else if magicNumber = pcapMagicNs then some (true, false, rest)
    else if magicNumber = pcapMagicBeLe then some (false, true, rest)
    else none

/-- What a round of the loop reads. -/
inductive Next where
  /-- The file ends, or it ends in the middle of a packet. -/
  | eof
  /-- A packet that is too large is skipped. -/
  | skipped (rest : List UInt8)
  | packet (p : PcapPacket) (rest : List UInt8)

/-- The reads at the beginning of a round: the header of a packet and its bytes. -/
def next (swapEndian : Bool) (file : List UInt8) : Next :=
  let header := file.take sizeofPcapPktHeader
  let file := file.drop sizeofPcapPktHeader
  if header.length ≠ sizeofPcapPktHeader then .eof
  else
    let ph := PcapPktHeader.read swapEndian header
    let readLen := ph.inclLen.toNat
    if readLen > sizeofPktBuf then .skipped (file.drop readLen)
    else
      let data := file.take readLen
      if data.length ≠ readLen then .eof else .packet ⟨ph, data⟩ (file.drop readLen)

/-! ## Delivering a packet -/

/-- `fread` into the buffer. -/
def fill (pktBuf : ℕ → UInt8) (data : List UInt8) : ℕ → UInt8 :=
  fun i => data[i]?.getD (pktBuf i)

/-- `pkt_ts_ns`: the time stamp of a packet in nanoseconds. -/
def pktTsNs (nanoTs : Bool) (ph : PcapPktHeader) : UInt64 :=
  if nanoTs then ph.tsSec.toUInt64 * 1000000000 + ph.tsUsec.toUInt64
  else ph.tsSec.toUInt64 * 1000000000 + ph.tsUsec.toUInt64 * 1000

/-- `sleep_for`: how long it sleeps when it is asked for so many nanoseconds. -/
def sleepFor (ns : Int64) : ℕ :=
  ns.toInt.toNat

/-- The wait of the real-time mode, with a reading of the clock. -/
def sleepNs (firstPktTsNs firstWallNs pktTsNs now : UInt64) : ℕ :=
  let deltaPcap := pktTsNs - firstPktTsNs
  let wallElapsed := now - firstWallNs
  if deltaPcap > wallElapsed then sleepFor (deltaPcap - wallElapsed).toInt64 else 0

/-- The wait before a packet. -/
def pace (clock : ℕ → UInt64) (r : Replay) (pktTsNs : UInt64) : Replay :=
  match r.mode with
  | .realtime =>
    { r with
      sleeps := r.sleeps ++ [sleepNs r.firstPktTsNs r.firstWallNs pktTsNs (clock r.clockReads)]
      clockReads := r.clockReads + 1 }
  | .fastest => r

/-- The first packet sets the reference of the time stamps and of the clock. -/
def reference (clock : ℕ → UInt64) (r : Replay) (pktTsNs : UInt64) : Replay :=
  if r.firstPacket then
    { r with
      firstPktTsNs := pktTsNs
      firstWallNs := clock r.clockReads
      firstPacket := false
      clockReads := r.clockReads + 1 }
  else r

/-- What becomes of the payload of a packet in the buffer. -/
def dispatch (r : Replay) (readLen : ℕ) (pktTsNs : UInt64) : Replay :=
  if readLen ≤ l2l3l4Offset then r
  else
    let (replayer, calls) := r.replayer.dispatchPayload r.pktBuf l2l3l4Offset
      (readLen - l2l3l4Offset) pktTsNs.toNat
    { r with replayer := replayer, calls := r.calls ++ [calls] }

/-- What is done for a packet before its payload: the wait, and the count of the packets. -/
def arrive (clock : ℕ → UInt64) (r : Replay) (pktTsNs : UInt64) : Replay :=
  let r := (r.reference clock pktTsNs).pace clock pktTsNs
  { r with pktsReplayed := r.pktsReplayed + 1 }

/-- The rest of a round, after the reads. -/
def deliver (clock : ℕ → UInt64) (r : Replay) (p : PcapPacket) : Replay :=
  let r := { r with pktBuf := fill r.pktBuf p.data }
  let pktTsNs := pktTsNs r.nanoTs p.header
  (r.arrive clock pktTsNs).dispatch p.header.inclLen.toNat pktTsNs

/-! ## The loop -/

/-- A round of the loop, or nothing when it breaks. -/
def round (clock : ℕ → UInt64) (s : List UInt8 × Replay) : Option (List UInt8 × Replay) :=
  match next s.2.swapEndian s.1 with
  | .eof => none
  | .skipped rest => some (rest, s.2)
  | .packet p rest => some (rest, s.2.deliver clock p)

/-- At most so many rounds. -/
def rounds (clock : ℕ → UInt64) : ℕ → List UInt8 × Replay → List UInt8 × Replay
  | 0, s => s
  | n + 1, s =>
    match round clock s with
    | none => s
    | some s' => rounds clock n s'

/-- The loop: there are no more rounds than bytes. -/
def loop (clock : ℕ → UInt64) (s : List UInt8 × Replay) : List UInt8 × Replay :=
  rounds clock s.1.length s

/-- The variables before the loop; the clock has been read once. -/
def start (replayer : PcapReplayer) (mode : ReplayMode) (pktsReplayed : ℕ) (clock : ℕ → UInt64)
    (pktBuf : ℕ → UInt8) (nanoTs swapEndian : Bool) : Replay where
  replayer := replayer
  mode := mode
  nanoTs := nanoTs
  swapEndian := swapEndian
  pktsReplayed := pktsReplayed
  firstPktTsNs := 0
  firstWallNs := clock 0
  firstPacket := true
  pktBuf := pktBuf
  clockReads := 1
  sleeps := []
  calls := []

/-- `replay`, of a replayer that replayed `pktsReplayed` packets so far; nothing when it returns
`false`. -/
def replay (replayer : PcapReplayer) (mode : ReplayMode) (pktsReplayed : ℕ) (clock : ℕ → UInt64)
    (pktBuf : ℕ → UInt8) (file : List UInt8) : Option Replay :=
  match openFile file with
  | none => none
  | some (nanoTs, swapEndian, rest) =>
    some (loop clock
      (rest, start replayer mode pktsReplayed clock pktBuf nanoTs swapEndian)).2

/-- What can be seen of a replay: its counters and the calls of the callbacks. -/
def outcome (r : Replay) : ℕ × ℕ × ℕ × List ReplayCalls :=
  (r.pktsReplayed, r.replayer.msgsReplayed, r.replayer.parseErrors, r.calls)

/-! ## The packets of a file -/

/-- A packet that is skipped takes its header from the file. -/
lemma length_lt_of_skipped {swapEndian : Bool} {file rest : List UInt8}
    (h : next swapEndian file = .skipped rest) : rest.length < file.length := by
  unfold next at h
  dsimp only at h
  split_ifs at h with hheader hlarge
  cases h
  rw [List.length_take, sizeofPcapPktHeader] at hheader
  rw [List.length_drop, List.length_drop, sizeofPcapPktHeader]
  omega

/-- A packet that is read takes its header and its bytes from the file, as many as its header
says. -/
lemma next_eq_packet {swapEndian : Bool} {file rest : List UInt8} {p : PcapPacket}
    (h : next swapEndian file = .packet p rest) :
    rest.length < file.length ∧ p.data.length = p.header.inclLen.toNat ∧
      p.data.length ≤ sizeofPktBuf := by
  unfold next at h
  dsimp only at h
  split_ifs at h with hheader hlarge hdata
  cases h
  rw [List.length_take, sizeofPcapPktHeader] at hheader
  refine ⟨?_, not_not.mp hdata, ?_⟩
  · rw [List.length_drop, List.length_drop, sizeofPcapPktHeader]
    omega
  · rw [not_not.mp hdata]
    exact not_lt.mp hlarge

/-- The packets that are read from a file. -/
def packets (swapEndian : Bool) (file : List UInt8) : List PcapPacket :=
  match _h : next swapEndian file with
  | .eof => []
  | .skipped rest => packets swapEndian rest
  | .packet p rest => p :: packets swapEndian rest
termination_by file.length
decreasing_by
  · exact length_lt_of_skipped _h
  · exact (next_eq_packet _h).1

lemma packets_of_eof {swapEndian : Bool} {file : List UInt8}
    (h : next swapEndian file = .eof) : packets swapEndian file = [] := by
  rw [packets]
  split <;> simp_all

lemma packets_of_skipped {swapEndian : Bool} {file rest : List UInt8}
    (h : next swapEndian file = .skipped rest) :
    packets swapEndian file = packets swapEndian rest := by
  rw [packets]
  split <;> simp_all

lemma packets_of_packet {swapEndian : Bool} {file rest : List UInt8} {p : PcapPacket}
    (h : next swapEndian file = .packet p rest) :
    packets swapEndian file = p :: packets swapEndian rest := by
  rw [packets]
  split <;> simp_all

/-- A packet of the file has as many bytes as its header says. -/
lemma length_data_of_mem {swapEndian : Bool} {file : List UInt8} {p : PcapPacket}
    (h : p ∈ packets swapEndian file) :
    p.data.length = p.header.inclLen.toNat ∧ p.data.length ≤ sizeofPktBuf := by
  induction file using packets.induct swapEndian with
  | case1 file heof =>
    rw [packets_of_eof heof] at h
    exact absurd h List.not_mem_nil
  | case2 file rest hskipped ih =>
    rw [packets_of_skipped hskipped] at h
    exact ih h
  | case3 file q rest hpacket ih =>
    rw [packets_of_packet hpacket] at h
    rcases List.mem_cons.mp h with rfl | h
    · exact (next_eq_packet hpacket).2
    · exact ih h

/-! ## The loop delivers the packets -/

@[simp] lemma swapEndian_arrive (clock : ℕ → UInt64) (r : Replay) (pktTsNs : UInt64) :
    (r.arrive clock pktTsNs).swapEndian = r.swapEndian := by
  unfold arrive reference pace
  dsimp only
  split_ifs <;> cases r.mode <;> rfl

/-- A payload changes the replayer and calls back, and nothing else. -/
lemma exists_dispatch_eq (r : Replay) (readLen : ℕ) (pktTsNs : UInt64) :
    ∃ replayer calls,
      r.dispatch readLen pktTsNs = { r with replayer := replayer, calls := calls } := by
  unfold dispatch
  split_ifs
  · exact ⟨r.replayer, r.calls, rfl⟩
  · exact ⟨_, _, rfl⟩

@[simp] lemma swapEndian_dispatch (r : Replay) (readLen : ℕ) (pktTsNs : UInt64) :
    (r.dispatch readLen pktTsNs).swapEndian = r.swapEndian := by
  obtain ⟨replayer, calls, hdispatch⟩ := exists_dispatch_eq r readLen pktTsNs
  rw [hdispatch]

@[simp] lemma swapEndian_deliver (clock : ℕ → UInt64) (r : Replay) (p : PcapPacket) :
    (r.deliver clock p).swapEndian = r.swapEndian := by
  simp [deliver]

/-- Enough rounds deliver the packets of the file and end the loop. -/
lemma rounds_spec (clock : ℕ → UInt64) {n : ℕ} {file : List UInt8} (hn : file.length ≤ n)
    (r : Replay) :
    round clock (rounds clock n (file, r)) = none ∧
      (rounds clock n (file, r)).2 = (packets r.swapEndian file).foldl (deliver clock) r := by
  induction n generalizing file r with
  | zero =>
    have hnil : file = [] := List.length_eq_zero_iff.mp (Nat.le_zero.mp hn)
    subst hnil
    have heof : next r.swapEndian [] = .eof := by
      simp [next, sizeofPcapPktHeader]
    exact ⟨by simp [rounds, round, heof], by simp [rounds, packets_of_eof heof]⟩
  | succ n ih =>
    cases hnext : next r.swapEndian file with
    | eof =>
      have hround : round clock (file, r) = none := by simp [round, hnext]
      rw [rounds, hround, packets_of_eof hnext]
      exact ⟨hround, rfl⟩
    | skipped rest =>
      have hround : round clock (file, r) = some (rest, r) := by simp [round, hnext]
      have hlength := length_lt_of_skipped hnext
      rw [rounds, hround, packets_of_skipped hnext]
      exact ih (by omega) r
    | packet p rest =>
      have hround : round clock (file, r) = some (rest, r.deliver clock p) := by
        simp [round, hnext]
      have hlength := (next_eq_packet hnext).1
      have hrest := ih (show rest.length ≤ n by omega) (r.deliver clock p)
      rw [rounds, hround, packets_of_packet hnext, List.foldl_cons]
      rwa [swapEndian_deliver] at hrest

/-- **Termination.**  The loop has ended after as many rounds as there are bytes. -/
theorem round_loop (clock : ℕ → UInt64) (file : List UInt8) (r : Replay) :
    round clock (loop clock (file, r)) = none :=
  (rounds_spec clock le_rfl r).1

/-- **Packets.**  The loop delivers the packets of the file, one after the other. -/
theorem loop_eq (clock : ℕ → UInt64) (file : List UInt8) (r : Replay) :
    (loop clock (file, r)).2 = (packets r.swapEndian file).foldl (deliver clock) r :=
  (rounds_spec clock le_rfl r).2

end Replay

end QuantTrade
