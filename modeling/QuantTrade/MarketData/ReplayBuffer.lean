import QuantTrade.MarketData.BatchParsing
import QuantTrade.MarketData.CaptureFile

/-!
# The buffer of a replay

All packets of a capture are read into the same buffer on the stack.  `dispatch_payload` looks at
the byte at index 4 of the payload before anything is known of the length, so a packet with one to
four bytes of payload is judged by a byte that was there before.  The function `dispatchPayload?` is
`dispatch_payload` once more, on a memory in which a read can fail.  A replay reads only what it has
filled, and does not depend on what was in the buffer, exactly when no such packet is read
(`dependsOnFile_iff`).
-/

namespace QuantTrade

open ByteWindow (window window? guarded)

namespace Normalizer

/-- `parse_internal_depth`, with reads that may fail. -/
def parseInternalDepth? (mem : ℕ → Option UInt8) (buf len : ℕ) : Option (Option DepthEvent) :=
  if len < sizeofWireDepth then some none
  else do
    let wire := WireDepth.ofBytes (← window? mem buf sizeofWireDepth)
    if wire.magic ≠ wireMagic then some none
    else if wire.msgType ≠ wireDepth then some none
    else some (some
      { tsNs := wire.exchangeTsNs.toNat
        instrumentId := wire.instrumentId.toNat
        bidLevels := clampLevels wire.bidLevels
        askLevels := clampLevels wire.askLevels
        bids := copyLevels (clampLevels wire.bidLevels) wire.bids
        asks := copyLevels (clampLevels wire.askLevels) wire.asks
        bidLevels_le := clampLevels_le _
        askLevels_le := clampLevels_le _ })

/-- `parse_depth`, with reads that may fail. -/
def parseDepth? (mem : ℕ → Option UInt8) (buf len : ℕ) :
    ExchangeType → Option (Option DepthEvent)
  | .internal | .cffex | .sseStep | .binance => parseInternalDepth? mem buf len

/-- A depth update is parsed without a read outside of its bytes. -/
lemma parseDepth?_guarded {mem : ℕ → UInt8} {first n buf len : ℕ} (hfirst : first ≤ buf)
    (hlast : buf + len ≤ first + n) (exchange : ExchangeType) :
    parseDepth? (guarded mem first n) buf len exchange =
      some (parseDepth mem buf len exchange) := by
  have hinternal : parseInternalDepth? (guarded mem first n) buf len =
      some (parseInternalDepth mem buf len) := by
    unfold parseInternalDepth? parseInternalDepth
    by_cases hshort : len < sizeofWireDepth
    · rw [if_pos hshort, if_pos hshort]
    · have hread : window? (guarded mem first n) buf sizeofWireDepth =
          some (window mem buf sizeofWireDepth) :=
        ByteWindow.window?_guarded hfirst (by omega)
      simp only [if_neg hshort, hread, Option.bind_eq_bind, Option.bind_some]
      split_ifs <;> rfl
  cases exchange <;> exact hinternal

end Normalizer

namespace PcapReplayer

/-- `dispatch_payload`, with reads that may fail. -/
def dispatchPayload? (r : PcapReplayer) (mem : ℕ → Option UInt8) (payload len pktTsNs : ℕ) :
    Option (PcapReplayer × ReplayCalls) :=
  if len < 1 then some (r, {})
  else do
    let msgType ← mem (payload + 4)
    if msgType = wireBbo ∨ msgType = wireTrade then
      match ← Normalizer.parseBbo? mem payload len r.exchange with
      | some e =>
        some ({ r with msgsReplayed := r.msgsReplayed + 1 },
          { bbo := if r.bboCb then [{ e with localTsNs := pktTsNs }] else [] })
      | none => some ({ r with parseErrors := r.parseErrors + 1 }, {})
    else if msgType = wireDepth then
      match ← Normalizer.parseDepth? mem payload len r.exchange with
      | some e =>
        some ({ r with msgsReplayed := r.msgsReplayed + 1 },
          { depth := if r.depthCb then [{ e with tsNs := pktTsNs }] else [] })
      | none => some ({ r with parseErrors := r.parseErrors + 1 }, {})
    else some (r, {})

/-- A payload of at least five bytes is judged by its own bytes. -/
lemma dispatchPayload?_guarded (r : PcapReplayer) {mem : ℕ → UInt8} {payload len : ℕ}
    (hlen : 5 ≤ len) (pktTsNs : ℕ) :
    r.dispatchPayload? (guarded mem 0 (payload + len)) payload len pktTsNs =
      some (r.dispatchPayload mem payload len pktTsNs) := by
  have htype : guarded mem 0 (payload + len) (payload + 4) = some (mem (payload + 4)) :=
    ByteWindow.guarded_of_inside (Nat.zero_le _) (by omega)
  have hbbo : Normalizer.parseBbo? (guarded mem 0 (payload + len)) payload len r.exchange =
      some (Normalizer.parseBbo mem payload len r.exchange) := by
    have hinside := @Normalizer.parseBbo?_guarded mem 0 (payload + len) payload
      (Nat.le_add_right ..) r.exchange
    rwa [Nat.zero_add, Nat.add_sub_cancel_left] at hinside
  have hdepth : Normalizer.parseDepth? (guarded mem 0 (payload + len)) payload len r.exchange =
      some (Normalizer.parseDepth mem payload len r.exchange) :=
    Normalizer.parseDepth?_guarded (Nat.zero_le _) (by omega) r.exchange
  unfold dispatchPayload? dispatchPayload
  rw [if_neg (by omega), if_neg (by omega)]
  simp only [htype, Option.bind_eq_bind, Option.bind_some]
  by_cases hquote : mem (payload + 4) = wireBbo ∨ mem (payload + 4) = wireTrade
  · rw [if_pos hquote, if_pos hquote, hbbo, Option.bind_some]
    cases Normalizer.parseBbo mem payload len r.exchange <;> rfl
  · rw [if_neg hquote, if_neg hquote]
    by_cases hupdate : mem (payload + 4) = wireDepth
    · rw [if_pos hupdate, if_pos hupdate, hdepth, Option.bind_some]
      cases Normalizer.parseDepth mem payload len r.exchange <;> rfl
    · rw [if_neg hupdate, if_neg hupdate]

/-- A payload of one to four bytes is judged by a byte behind it. -/
lemma dispatchPayload?_guarded_short (r : PcapReplayer) {mem : ℕ → UInt8} {payload len : ℕ}
    (hpos : 1 ≤ len) (hlen : len < 5) (pktTsNs : ℕ) :
    r.dispatchPayload? (guarded mem 0 (payload + len)) payload len pktTsNs = none := by
  have htype : guarded mem 0 (payload + len) (payload + 4) = none := if_neg (by omega)
  unfold dispatchPayload?
  rw [if_neg (by omega), htype]
  rfl

end PcapReplayer

namespace Replay

/-- The payload of the packet, if it has one, is handled without a read of what the packet has not
filled. -/
def ReadsFilled (r : Replay) (p : PcapPacket) : Prop :=
  let readLen := p.header.inclLen.toNat
  l2l3l4Offset < readLen →
    (r.replayer.dispatchPayload? (guarded (fill r.pktBuf p.data) 0 p.data.length) l2l3l4Offset
      (readLen - l2l3l4Offset) (pktTsNs r.nanoTs p.header).toNat).isSome

/-- The packet has one to four bytes of payload. -/
def TooShort (p : PcapPacket) : Prop :=
  42 < p.header.inclLen.toNat ∧ p.header.inclLen.toNat < 47

instance (p : PcapPacket) : Decidable (TooShort p) :=
  inferInstanceAs (Decidable (_ ∧ _))

lemma readsFilled_iff {p : PcapPacket} (hlength : p.data.length = p.header.inclLen.toNat)
    (r : Replay) : r.ReadsFilled p ↔ ¬TooShort p := by
  unfold ReadsFilled TooShort l2l3l4Offset
  dsimp only
  rw [hlength]
  by_cases hpayload : 42 < p.header.inclLen.toNat
  · obtain ⟨len, hlen⟩ := Nat.exists_eq_add_of_lt hpayload
    by_cases hshort : p.header.inclLen.toNat < 47
    · have hnone := @PcapReplayer.dispatchPayload?_guarded_short r.replayer
        (fill r.pktBuf p.data) 42 (p.header.inclLen.toNat - 42) (by omega) (by omega)
        (pktTsNs r.nanoTs p.header).toNat
      rw [Nat.add_sub_cancel' hpayload.le] at hnone
      simp [hnone, hpayload, hshort]
    · have hsome := @PcapReplayer.dispatchPayload?_guarded r.replayer (fill r.pktBuf p.data) 42
        (p.header.inclLen.toNat - 42) (by omega) (pktTsNs r.nanoTs p.header).toNat
      rw [Nat.add_sub_cancel' hpayload.le] at hsome
      simp [hsome, hshort]
  · simp [hpayload]

/-! ## Two contents of the buffer -/

/-- The same replay with something else in the buffer. -/
def withBuf (r : Replay) (pktBuf : ℕ → UInt8) : Replay :=
  { r with pktBuf := pktBuf }

@[simp] lemma outcome_withBuf (r : Replay) (pktBuf : ℕ → UInt8) :
    (r.withBuf pktBuf).outcome = r.outcome := rfl

/-- Inside of what is filled the buffer has the bytes of the packet. -/
lemma guarded_fill (pktBuf pktBuf' : ℕ → UInt8) (data : List UInt8) :
    guarded (fill pktBuf data) 0 data.length = guarded (fill pktBuf' data) 0 data.length := by
  funext i
  unfold guarded
  split_ifs with hi
  · rw [fill, fill, List.getElem?_eq_getElem (by omega)]
    rfl
  · rfl

/-- The handling of a payload of at least five bytes does not depend on the rest of the buffer. -/
lemma dispatchPayload_fill (replayer : PcapReplayer) (pktBuf pktBuf' : ℕ → UInt8)
    {data : List UInt8} (hlen : 47 ≤ data.length) (pktTsNs : ℕ) :
    replayer.dispatchPayload (fill pktBuf data) 42 (data.length - 42) pktTsNs =
      replayer.dispatchPayload (fill pktBuf' data) 42 (data.length - 42) pktTsNs := by
  apply Option.some_injective
  have hone := @PcapReplayer.dispatchPayload?_guarded replayer (fill pktBuf data) 42
    (data.length - 42) (by omega) pktTsNs
  have hother := @PcapReplayer.dispatchPayload?_guarded replayer (fill pktBuf' data) 42
    (data.length - 42) (by omega) pktTsNs
  rw [Nat.add_sub_cancel' (by omega)] at hone hother
  rw [← hone, ← hother, guarded_fill pktBuf pktBuf']

/-- The buffer is no matter before the payload. -/
lemma arrive_withBuf (clock : ℕ → UInt64) (r : Replay) (pktBuf : ℕ → UInt8) (ts : UInt64) :
    (r.withBuf pktBuf).arrive clock ts = (r.arrive clock ts).withBuf pktBuf := by
  obtain ⟨replayer, mode, nanoTs, swapEndian, pktsReplayed, firstPktTsNs, firstWallNs, firstPacket,
    buf, clockReads, sleeps, calls⟩ := r
  cases firstPacket <;> cases mode <;> rfl

lemma pktBuf_arrive (clock : ℕ → UInt64) (r : Replay) (ts : UInt64) :
    (r.arrive clock ts).pktBuf = r.pktBuf := by
  unfold arrive reference pace
  dsimp only
  split_ifs <;> cases r.mode <;> rfl

/-- The payload of a packet that is not too short is handled alike, whatever is behind it. -/
lemma dispatch_withBuf {r : Replay} {pktBuf₀ : ℕ → UInt8} {data : List UInt8}
    (hbuf : r.pktBuf = fill pktBuf₀ data) (hshort : ¬(42 < data.length ∧ data.length < 47))
    (pktBuf : ℕ → UInt8) (ts : UInt64) :
    (r.withBuf (fill pktBuf data)).dispatch data.length ts =
      (r.dispatch data.length ts).withBuf (fill pktBuf data) := by
  unfold dispatch l2l3l4Offset
  by_cases hpayload : data.length ≤ 42
  · rw [if_pos hpayload, if_pos hpayload]
  · have hsame := dispatchPayload_fill r.replayer pktBuf₀ pktBuf (show 47 ≤ data.length by omega)
      ts.toNat
    rw [if_neg hpayload, if_neg hpayload, hbuf]
    dsimp only [withBuf]
    rw [← hsame]

/-- A packet that is not too short is delivered alike, whatever is in the buffer. -/
lemma deliver_withBuf (clock : ℕ → UInt64) (r : Replay) (pktBuf : ℕ → UInt8) {p : PcapPacket}
    (hlength : p.data.length = p.header.inclLen.toNat) (hshort : ¬TooShort p) :
    (r.withBuf pktBuf).deliver clock p = (r.deliver clock p).withBuf (fill pktBuf p.data) := by
  rw [TooShort, ← hlength] at hshort
  unfold deliver
  dsimp only
  rw [← hlength]
  change ((({ r with pktBuf := fill r.pktBuf p.data }.withBuf (fill pktBuf p.data)).arrive clock
    _).dispatch _ _) = _
  rw [arrive_withBuf]
  exact dispatch_withBuf (pktBuf_arrive ..) hshort pktBuf _

/-- Packets that are not too short are delivered alike. -/
lemma foldl_deliver_withBuf (clock : ℕ → UInt64) {ps : List PcapPacket}
    (hlength : ∀ p ∈ ps, p.data.length = p.header.inclLen.toNat) (hshort : ∀ p ∈ ps, ¬TooShort p)
    (r : Replay) (pktBuf : ℕ → UInt8) :
    ∃ pktBuf', ps.foldl (deliver clock) (r.withBuf pktBuf) =
      (ps.foldl (deliver clock) r).withBuf pktBuf' := by
  induction ps generalizing r pktBuf with
  | nil => exact ⟨pktBuf, rfl⟩
  | cons p ps ih =>
    rw [List.foldl_cons, List.foldl_cons,
      deliver_withBuf clock r pktBuf (hlength p List.mem_cons_self) (hshort p List.mem_cons_self)]
    exact ih (fun q hq => hlength q (List.mem_cons_of_mem p hq))
      (fun q hq => hshort q (List.mem_cons_of_mem p hq)) _ _

/-! ## Rounds and packets -/

/-- The packets of a file are those that are read in the rounds of the loop. -/
lemma mem_packets_iff (clock : ℕ → UInt64) {file : List UInt8} {r : Replay} {p : PcapPacket} :
    p ∈ packets r.swapEndian file ↔
      ∃ n rest, next r.swapEndian (rounds clock n (file, r)).1 = .packet p rest := by
  generalize hswap : r.swapEndian = swapEndian
  induction file using packets.induct swapEndian generalizing r with
  | case1 file heof =>
    have hround : round clock (file, r) = none := by simp [round, hswap, heof]
    have hstays (n : ℕ) : rounds clock n (file, r) = (file, r) := by
      cases n with
      | zero => rfl
      | succ n => rw [rounds, hround]
    simp [packets_of_eof heof, hstays, heof]
  | case2 file rest hskipped ih =>
    have hround : round clock (file, r) = some (rest, r) := by simp [round, hswap, hskipped]
    rw [packets_of_skipped hskipped, ih hswap]
    constructor
    · rintro ⟨n, after, hnext⟩
      exact ⟨n + 1, after, by rwa [rounds, hround]⟩
    · rintro ⟨n, after, hnext⟩
      cases n with
      | zero => simp [rounds, hskipped] at hnext
      | succ n =>
        rw [rounds, hround] at hnext
        exact ⟨n, after, hnext⟩
  | case3 file q rest hpacket ih =>
    have hround : round clock (file, r) = some (rest, r.deliver clock q) := by
      simp [round, hswap, hpacket]
    have hrest := @ih (r.deliver clock q) ((swapEndian_deliver clock r q).trans hswap)
    rw [packets_of_packet hpacket, List.mem_cons, hrest]
    constructor
    · rintro (rfl | ⟨n, after, hnext⟩)
      · exact ⟨0, rest, hpacket⟩
      · exact ⟨n + 1, after, by rwa [rounds, hround]⟩
    · rintro ⟨n, after, hnext⟩
      cases n with
      | zero =>
        rw [rounds, hpacket, Next.packet.injEq] at hnext
        exact .inl hnext.1.symm
      | succ n =>
        rw [rounds, hround] at hnext
        exact .inr ⟨n, after, hnext⟩

/-! ## Files -/

/-- The packets that are read from a capture file, after its global header. -/
def packetsOf (file : List UInt8) : List PcapPacket :=
  match openFile file with
  | none => []
  | some (_, swapEndian, rest) => packets swapEndian rest

/-- A replay as fast as possible is a function of the file: its loop ends; in every round nothing of
the buffer is read but what the packet of this round has filled; and its counters and callbacks are
the same whatever is in the buffer before. -/
structure DependsOnFile (replayer : PcapReplayer) (pktsReplayed : ℕ) (clock : ℕ → UInt64)
    (file : List UInt8) : Prop where
  ends : ∀ pktBuf nanoTs swapEndian rest, openFile file = some (nanoTs, swapEndian, rest) →
    round clock (loop clock (rest,
      start replayer .fastest pktsReplayed clock pktBuf nanoTs swapEndian)) = none
  filled : ∀ pktBuf nanoTs swapEndian rest, openFile file = some (nanoTs, swapEndian, rest) →
    let begun := start replayer .fastest pktsReplayed clock pktBuf nanoTs swapEndian
    ∀ n p after, next swapEndian (rounds clock n (rest, begun)).1 = .packet p after →
      (rounds clock n (rest, begun)).2.ReadsFilled p
  same : ∀ pktBuf pktBuf',
    (replay replayer .fastest pktsReplayed clock pktBuf file).map outcome =
      (replay replayer .fastest pktsReplayed clock pktBuf' file).map outcome

/-- **Replay and file.**  For every sequence of bytes, a replay of it as fast as possible is a
function of the file exactly when no packet with one to four bytes of payload is read from it. -/
theorem dependsOnFile_iff (replayer : PcapReplayer) (pktsReplayed : ℕ) (clock : ℕ → UInt64)
    (file : List UInt8) :
    DependsOnFile replayer pktsReplayed clock file ↔ ∀ p ∈ packetsOf file, ¬TooShort p := by
  unfold packetsOf
  cases hopen : openFile file with
  | none =>
    have hnone (pktBuf : ℕ → UInt8) :
        replay replayer .fastest pktsReplayed clock pktBuf file = none := by
      rw [replay, hopen]
    refine iff_of_true ⟨?_, ?_, ?_⟩ (by simp)
    · simp [hopen]
    · simp [hopen]
    · simp [hnone]
  | some opened =>
    obtain ⟨nanoTs, swapEndian, rest⟩ := opened
    dsimp only
    constructor
    · intro h p hp
      have hlength := (length_data_of_mem hp).1
      let begun := start replayer .fastest pktsReplayed clock (fun _ => 0) nanoTs swapEndian
      obtain ⟨n, after, hnext⟩ := (@mem_packets_iff clock rest begun p).mp hp
      have hfilled := h.filled (fun _ => 0) nanoTs swapEndian rest hopen n p after hnext
      exact (readsFilled_iff hlength _).mp hfilled
    · intro hshort
      have hlength : ∀ p ∈ packets swapEndian rest, p.data.length = p.header.inclLen.toNat :=
        fun p hp => (length_data_of_mem hp).1
      refine ⟨?_, ?_, ?_⟩
      · rintro pktBuf nanoTs' swapEndian' rest' -
        exact round_loop ..
      · intro pktBuf nanoTs' swapEndian' rest' hopen' begun n p after hnext
        rw [hopen, Option.some.injEq, Prod.mk.injEq, Prod.mk.injEq] at hopen'
        obtain ⟨rfl, rfl, rfl⟩ := hopen'
        have hp := (@mem_packets_iff clock rest begun p).mpr ⟨n, after, hnext⟩
        exact (readsFilled_iff (hlength p hp) _).mpr (hshort p hp)
      · intro pktBuf pktBuf'
        let begun := start replayer .fastest pktsReplayed clock pktBuf nanoTs swapEndian
        obtain ⟨buf, hbuf⟩ := foldl_deliver_withBuf clock hlength hshort begun pktBuf'
        have hother : start replayer .fastest pktsReplayed clock pktBuf' nanoTs swapEndian =
            begun.withBuf pktBuf' := rfl
        simp only [replay, hopen, Option.map_some, loop_eq, hother]
        change some (outcome ((packets swapEndian rest).foldl (deliver clock) begun)) =
          some (outcome ((packets swapEndian rest).foldl (deliver clock) (begun.withBuf pktBuf')))
        rw [hbuf, outcome_withBuf]

/-- A capture of one packet with a single byte of payload. -/
def oneByteCapture : List UInt8 :=
  bytesU32 pcapMagicLe ++ List.replicate 20 0 ++
    (bytesU32 0 ++ bytesU32 0 ++ bytesU32 43 ++ bytesU32 43) ++ List.replicate 43 0

/-- Such a packet is a parse error or nothing, as the buffer has it. -/
theorem not_dependsOnFile_oneByte :
    ¬∀ (replayer : PcapReplayer) (pktsReplayed : ℕ) (clock : ℕ → UInt64) (file : List UInt8),
      DependsOnFile replayer pktsReplayed clock file := by
  intro hclaim
  have hsame := (hclaim .listening 0 (fun _ => 0) oneByteCapture).same (fun _ => 0) fun _ => wireBbo
  exact absurd hsame (by decide +kernel)

end Replay

end QuantTrade
