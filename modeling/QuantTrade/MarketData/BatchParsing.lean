import QuantTrade.MarketData.FeedAgreement

/-!
# Parsing a packet

What `process_packet` makes of a packet of well-formed messages, and how `parse_batch` treats any
bytes at all.  The functions `parseBbo?` and `parseBatch?` are the parser once more, on a memory in
which a read can fail: when only the bytes of the packet may be read, none of its reads does
(`parseBatch?_guarded`).
-/

namespace QuantTrade

open ByteWindow (window window? guarded Holds)

namespace Normalizer

/-! ## The parser with reads that may fail -/

/-- `parse_internal_bbo`. -/
def parseInternalBbo? (mem : ℕ → Option UInt8) (buf len : ℕ) : Option (Option BBOEvent) :=
  if len < sizeofWireBBO then some none
  else do
    let wire := WireBBO.ofBytes (← window? mem buf sizeofWireBBO)
    if wire.magic ≠ wireMagic then some none
    else if wire.msgType ≠ wireBbo ∧ wire.msgType ≠ wireTrade then some none
    else some (some wire.event)

/-- `parse_binance_bbo`. -/
def parseBinanceBbo? (mem : ℕ → Option UInt8) (buf len : ℕ) : Option (Option BBOEvent) :=
  if len < sizeofWireBBO then some none
  else do
    let wire := WireBBO.ofBytes (← window? mem buf sizeofWireBBO)
    if wire.msgType ≠ wireBbo ∧ wire.msgType ≠ wireTrade then some none
    else some (some wire.event)

/-- `parse_bbo`. -/
def parseBbo? (mem : ℕ → Option UInt8) (buf len : ℕ) : ExchangeType → Option (Option BBOEvent)
  | .internal | .cffex | .sseStep => parseInternalBbo? mem buf len
  | .binance => parseBinanceBbo? mem buf len

/-- The loop of `parse_batch`. -/
def parseBatchFrom? (mem : ℕ → Option UInt8) (buf len maxOut : ℕ) (exchange : ExchangeType)
    (offset : ℕ) (out : List BBOEvent) : Option (List BBOEvent) :=
  if offset < len ∧ out.length < maxOut then
    if len - offset < sizeofWireBBO then some out
    else do
      let msg := buf + offset
      let msgType ← mem (msg + 4)
      if msgType = wireBbo ∨ msgType = wireTrade then
        let e ← parseBbo? mem msg (len - offset) exchange
        parseBatchFrom? mem buf len maxOut exchange (offset + sizeofWireBBO) (out ++ e.toList)
      else if msgType = wireDepth then
        parseBatchFrom? mem buf len maxOut exchange (offset + sizeofWireDepth) out
      else some out
  else some out
termination_by len - offset
decreasing_by
  · simp only [sizeofWireBBO]
    omega
  · simp only [sizeofWireDepth]
    omega

/-- `parse_batch`. -/
def parseBatch? (mem : ℕ → Option UInt8) (buf len maxOut : ℕ) (exchange : ExchangeType) :
    Option (List BBOEvent) :=
  parseBatchFrom? mem buf len maxOut exchange 0 []

section Guarded

variable {mem : ℕ → UInt8} {buf len : ℕ}

/-- A message inside the packet is parsed without a read outside of it. -/
lemma parseBbo?_guarded {offset : ℕ} (hoffset : offset ≤ len) (exchange : ExchangeType) :
    parseBbo? (guarded mem buf len) (buf + offset) (len - offset) exchange =
      some (parseBbo mem (buf + offset) (len - offset) exchange) := by
  unfold parseBbo? parseBbo parseInternalBbo? parseInternalBbo parseBinanceBbo? parseBinanceBbo
  by_cases hshort : len - offset < sizeofWireBBO
  · simp only [if_pos hshort]
    cases exchange <;> rfl
  · have hread : window? (guarded mem buf len) (buf + offset) sizeofWireBBO =
        some (window mem (buf + offset) sizeofWireBBO) :=
      ByteWindow.window?_guarded (by omega) (by omega)
    simp only [if_neg hshort, hread, Option.bind_eq_bind, Option.bind_some]
    cases exchange <;> dsimp only <;> split_ifs <;> rfl

/-- The loop reads inside the packet only. -/
lemma parseBatchFrom?_guarded (maxOut : ℕ) (exchange : ExchangeType) (offset : ℕ)
    (out : List BBOEvent) :
    parseBatchFrom? (guarded mem buf len) buf len maxOut exchange offset out =
      some (parseBatchFrom mem buf len maxOut exchange offset out) := by
  -- the byte of the type stands in the first 52 of a message
  have htype {offset : ℕ} (hmore : offset < len) (hshort : ¬len - offset < sizeofWireBBO) :
      guarded mem buf len (buf + offset + 4) = some (mem (buf + offset + 4)) := by
    simp only [sizeofWireBBO] at hshort
    exact ByteWindow.guarded_of_inside (by omega) (by omega)
  induction offset, out using parseBatchFrom.induct mem buf len maxOut exchange with
  | case1 offset out hmore hshort =>
    rw [parseBatchFrom?, parseBatchFrom, if_pos hmore, if_pos hmore, if_pos hshort, if_pos hshort]
  | case2 offset out hmore hshort msg msgType hbbo ih =>
    rw [parseBatchFrom?, parseBatchFrom, if_pos hmore, if_pos hmore, if_neg hshort, if_neg hshort]
    simp only [htype hmore.1 hshort, Option.bind_eq_bind, Option.bind_some]
    rw [if_pos hbbo, if_pos hbbo, parseBbo?_guarded hmore.1.le, Option.bind_some]
    exact ih
  | case3 offset out hmore hshort msg msgType hbbo hdepth ih =>
    rw [parseBatchFrom?, parseBatchFrom, if_pos hmore, if_pos hmore, if_neg hshort, if_neg hshort]
    simp only [htype hmore.1 hshort, Option.bind_eq_bind, Option.bind_some]
    rw [if_neg hbbo, if_neg hbbo, if_pos hdepth, if_pos hdepth]
    exact ih
  | case4 offset out hmore hshort msg msgType hbbo hdepth =>
    rw [parseBatchFrom?, parseBatchFrom, if_pos hmore, if_pos hmore, if_neg hshort, if_neg hshort]
    simp only [htype hmore.1 hshort, Option.bind_eq_bind, Option.bind_some]
    rw [if_neg hbbo, if_neg hbbo, if_neg hdepth, if_neg hdepth]
  | case5 offset out hdone =>
    rw [parseBatchFrom?, parseBatchFrom, if_neg hdone, if_neg hdone]

/-- `parse_batch` reads nothing but the bytes of the packet. -/
lemma parseBatch?_guarded (maxOut : ℕ) (exchange : ExchangeType) :
    parseBatch? (guarded mem buf len) buf len maxOut exchange =
      some (parseBatch mem buf len maxOut exchange) :=
  parseBatchFrom?_guarded maxOut exchange 0 []

/-- The loop stops when the array is full. -/
lemma length_parseBatchFrom_le {maxOut : ℕ} (exchange : ExchangeType) (offset : ℕ)
    {out : List BBOEvent} (hout : out.length ≤ maxOut) :
    (parseBatchFrom mem buf len maxOut exchange offset out).length ≤ maxOut := by
  induction offset, out using parseBatchFrom.induct mem buf len maxOut exchange with
  | case1 offset out hmore hshort =>
    rwa [parseBatchFrom, if_pos hmore, if_pos hshort]
  | case2 offset out hmore hshort msg msgType hbbo ih =>
    rw [parseBatchFrom, if_pos hmore, if_neg hshort]
    dsimp only
    rw [if_pos hbbo]
    apply ih
    have hone : (parseBbo mem msg (len - offset) exchange).toList.length ≤ 1 := by
      cases parseBbo mem msg (len - offset) exchange with
      | none => exact Nat.zero_le 1
      | some e => exact le_rfl
    rw [List.length_append]
    omega
  | case3 offset out hmore hshort msg msgType hbbo hdepth ih =>
    rw [parseBatchFrom, if_pos hmore, if_neg hshort]
    dsimp only
    rw [if_neg hbbo, if_pos hdepth]
    exact ih hout
  | case4 offset out hmore hshort msg msgType hbbo hdepth =>
    rw [parseBatchFrom, if_pos hmore, if_neg hshort]
    dsimp only
    rwa [if_neg hbbo, if_neg hdepth]
  | case5 offset out hdone =>
    rwa [parseBatchFrom, if_neg hdone]

end Guarded

end Normalizer

/-! ## The packet in the feed handler -/

/-- The event as the handler passes it on. -/
def BBOEvent.stamped (localTs : ℕ) (e : BBOEvent) : BBOEvent :=
  { e with localTsNs := localTs }

namespace FeedHandler

/-- The places left in the queue. -/
def room (h : FeedHandler) : ℕ :=
  4096 - h.bboQueue.size

/-- What a push does that finds room, and one that finds none. -/
lemma pushEvent_spec (h : FeedHandler) (e : BBOEvent) :
    (h.pushEvent e).rxMsgs = h.rxMsgs ∧
      ((0 < h.room ∧ (h.pushEvent e).bboQueue.contents = h.bboQueue.contents ++ [e] ∧
          (h.pushEvent e).dropped = h.dropped) ∨
        (h.room = 0 ∧ (h.pushEvent e).bboQueue.contents = h.bboQueue.contents ∧
          (h.pushEvent e).dropped = h.dropped + 1)) := by
  have hrefines := SPSCQueue.push_refines h.bboQueue e
  have hsize := h.bboQueue.size_le_capacity
  refine ⟨rfl, ?_⟩
  by_cases hfull : h.bboQueue.contents.length = 4096
  · rw [BoundedFifo.push_of_length_eq hfull, Prod.mk.injEq] at hrefines
    rw [SPSCQueue.length_contents] at hfull
    refine Or.inr ⟨by rw [room, hfull], hrefines.1, ?_⟩
    rw [pushEvent]
    simp [hrefines.2]
  · rw [BoundedFifo.push_of_length_ne hfull, Prod.mk.injEq] at hrefines
    rw [SPSCQueue.length_contents] at hfull
    refine Or.inl ⟨by rw [room]; omega, hrefines.1, ?_⟩
    rw [pushEvent]
    simp [hrefines.2]

/-- The room shrinks with the contents. -/
lemma room_eq (h : FeedHandler) : h.room = 4096 - h.bboQueue.contents.length := by
  rw [room, SPSCQueue.length_contents]

/-- The events go into the queue as long as there is room, and the others are counted. -/
lemma foldl_pushEvent (h : FeedHandler) (events : List BBOEvent) :
    (events.foldl pushEvent h).bboQueue.contents = h.bboQueue.contents ++ events.take h.room ∧
      (events.foldl pushEvent h).dropped = h.dropped + (events.drop h.room).length ∧
      (events.foldl pushEvent h).rxMsgs = h.rxMsgs := by
  induction events generalizing h with
  | nil => simp
  | cons e events ih =>
    rw [List.foldl_cons]
    obtain ⟨hcontents, hdropped, hrx⟩ := ih (h.pushEvent e)
    obtain ⟨hrx', ⟨hroom, hpush, hkept⟩ | ⟨hroom, hpush, hcounted⟩⟩ := h.pushEvent_spec e
    · have hless : (h.pushEvent e).room + 1 = h.room := by
        rw [room_eq, hpush, List.length_append, List.length_singleton]
        rw [room_eq] at hroom ⊢
        omega
      rw [hcontents, hdropped, hrx, hpush, hkept, hrx', ← hless, List.take_succ_cons,
        List.drop_succ_cons, List.append_assoc]
      exact ⟨rfl, rfl, rfl⟩
    · have hsame : (h.pushEvent e).room = 0 := by rw [room_eq, hpush, ← room_eq, hroom]
      rw [hcontents, hdropped, hrx, hpush, hcounted, hrx', hsame, hroom]
      simp [Nat.add_comm, Nat.add_left_comm]

/-- The handler passed these events on: each one to the callback, if there is one, and to the queue
or the counter of those that found it full. -/
structure PassedOn (h : FeedHandler) (events : List BBOEvent)
    (r : FeedHandler × List BBOEvent) : Prop where
  called : r.2 = if h.bboCallback then events else []
  rxMsgs : r.1.rxMsgs = h.rxMsgs + events.length
  queued : ∃ pushed lost, events = pushed ++ lost ∧
    r.1.bboQueue.contents = h.bboQueue.contents ++ pushed ∧
    r.1.dropped = h.dropped + lost.length

/-- Whatever the packet is, the handler passes on what the parser found in it. -/
lemma passedOn_processPacket (h : FeedHandler) (mem : ℕ → UInt8) (buf len localTs : ℕ) :
    h.PassedOn
      ((Normalizer.parseBatch mem buf len batchSize h.exchange).map (BBOEvent.stamped localTs))
      (h.processPacket mem buf len localTs) := by
  obtain ⟨hcontents, hdropped, hrx⟩ := h.foldl_pushEvent
    ((Normalizer.parseBatch mem buf len batchSize h.exchange).map (BBOEvent.stamped localTs))
  constructor
  · rfl
  · exact congrArg (· + _) hrx
  · exact ⟨_, _, (List.take_append_drop h.room _).symm, hcontents, hdropped⟩

end FeedHandler

/-- The event of a quote or a trade, stamped, has the fields of the message. -/
lemma WireBBO.decodedAs_stamped (w : WireBBO) (localTs : ℕ) :
    w.DecodedAs localTs (w.event.stamped localTs) :=
  { w.decodedAs_event with localTsNs := rfl }

/-- It is the only one. -/
lemma WireBBO.decodedAs_iff {w : WireBBO} {localTs : ℕ} {e : BBOEvent} :
    w.DecodedAs localTs e ↔ w.event.stamped localTs = e := by
  constructor
  · rintro ⟨hexchangeTs, hlocalTs, hinstrument, htype, hbidPx, haskPx, hbidQty, haskQty⟩
    cases e
    simp only [BBOEvent.stamped, WireBBO.event, BBOEvent.mk.injEq]
    exact ⟨hexchangeTs.symm, hlocalTs.symm, hinstrument.symm, htype.symm, hbidPx.symm,
      haskPx.symm, hbidQty.symm, haskQty.symm⟩
  · rintro rfl
    exact w.decodedAs_stamped localTs

/-- **Parsing a packet.**  Of a packet of well-formed messages, `process_packet` passes on exactly
the quotes and trades, in their order, each field as in the message and with the given time stamp.
Of any bytes at all, `parse_batch` makes at most `maxOut` events, and it reads none but the bytes of
the packet. -/
theorem batch_parsing (h : FeedHandler) {msgs : List WireMsg} (hwf : ∀ m ∈ msgs, m.WellFormed)
    (hsize : (WireMsg.payload msgs).length ≤ 2048) {mem : ℕ → UInt8} {buf : ℕ}
    (hmem : Holds mem buf (WireMsg.payload msgs)) (localTs : ℕ) :
    (∃ events, List.Forall₂ (fun w e => w.DecodedAs localTs e) (WireMsg.quotesAndTrades msgs)
          events ∧
        h.PassedOn events (h.processPacket mem buf (WireMsg.payload msgs).length localTs)) ∧
      ∀ (bytes : ℕ → UInt8) (first len maxOut : ℕ) (exchange : ExchangeType),
        (Normalizer.parseBatch bytes first len maxOut exchange).length ≤ maxOut ∧
          Normalizer.parseBatch? (guarded bytes first len) first len maxOut exchange =
            some (Normalizer.parseBatch bytes first len maxOut exchange) := by
  constructor
  · have hcount := WireMsg.length_mul_le_payload msgs
    have hroom : msgs.length ≤ FeedHandler.batchSize := by
      simp only [sizeofWireBBO, FeedHandler.batchSize] at *
      omega
    have hpassed := h.passedOn_processPacket mem buf (WireMsg.payload msgs).length localTs
    rw [Normalizer.parseBatch_payload hwf hmem hroom h.exchange, WireMsg.filterMap_event,
      List.map_map] at hpassed
    refine ⟨_, ?_, hpassed⟩
    rw [List.forall₂_map_right_iff, List.forall₂_same]
    exact fun w _ => w.decodedAs_stamped localTs
  · intro bytes first len maxOut exchange
    exact ⟨Normalizer.length_parseBatchFrom_le exchange 0 (Nat.zero_le maxOut),
      Normalizer.parseBatch?_guarded maxOut exchange⟩

/-- A packet with a quote, a depth update and a trade. -/
def mixedPacket : List WireMsg :=
  [sampleQuote, sampleDepth, sampleTrade]

/-- The quote and the trade of the packet are passed on. -/
theorem batch_parsing_mixedPacket :
    ∃ events, List.Forall₂ (fun w e => w.DecodedAs 9 e) (WireMsg.quotesAndTrades mixedPacket)
        events ∧
      FeedHandler.listening.PassedOn events
        (FeedHandler.listening.processPacket (fun i => (WireMsg.payload mixedPacket).getD i 0) 0
          (WireMsg.payload mixedPacket).length 9) :=
  (batch_parsing .listening (by decide)
    (by simp [WireMsg.payload, WireMsg.length_bytes, WireMsg.isDepth, mixedPacket, sampleQuote,
      sampleDepth, sampleTrade, sizeofWireBBO, sizeofWireDepth])
    (ByteWindow.holds_getD _ _) 9).1

end QuantTrade
