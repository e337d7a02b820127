import QuantTrade.MarketData.FeedHandler
import QuantTrade.MarketData.PcapReplayer

/-!
# Live feed and replay

The same payload may reach the strategies through `FeedHandler::process_packet` or through
`PcapReplayer::dispatch_payload`.  The first parses all the messages of a packet, the second only
the first one, so the events agree exactly when no quote or trade stands behind the first message
(`feed_agreement_iff`).
-/

namespace QuantTrade

open ByteWindow (Holds)

/-- An event without its local time stamp. -/
def BBOEvent.eraseLocalTs (e : BBOEvent) : BBOEvent :=
  { e with localTsNs := 0 }

/-- The events that the feed hands on are those of the quotes and trades in the packet. -/
lemma FeedHandler.processPacket_payload {h : FeedHandler} (hcallback : h.bboCallback = true)
    {msgs : List WireMsg} (hwf : ∀ m ∈ msgs, m.WellFormed)
    (hsize : (WireMsg.payload msgs).length ≤ maxPktBytes) {mem : ℕ → UInt8} {buf : ℕ}
    (hmem : Holds mem buf (WireMsg.payload msgs)) (localTs : ℕ) :
    (h.processPacket mem buf (WireMsg.payload msgs).length localTs).2.map BBOEvent.eraseLocalTs =
      (msgs.filterMap WireMsg.event).map BBOEvent.eraseLocalTs := by
  have hcount := WireMsg.length_mul_le_payload msgs
  have hroom : msgs.length ≤ batchSize := by
    simp only [sizeofWireBBO, maxPktBytes, batchSize] at *
    omega
  unfold processPacket
  dsimp only
  rw [if_pos hcallback, Normalizer.parseBatch_payload hwf hmem hroom, List.map_map]
  rfl

/-- The event that the replay hands on is that of the first message, when it is a quote or a
trade. -/
lemma PcapReplayer.dispatchPayload_payload {r : PcapReplayer} (hcallback : r.bboCb = true)
    {msgs : List WireMsg} (hwf : ∀ m ∈ msgs, m.WellFormed) {mem : ℕ → UInt8} {payload : ℕ}
    (hmem : Holds mem payload (WireMsg.payload msgs)) (pktTsNs : ℕ) :
    (r.dispatchPayload mem payload (WireMsg.payload msgs).length pktTsNs).2.bbo.map
        BBOEvent.eraseLocalTs =
      ((msgs.take 1).filterMap WireMsg.event).map BBOEvent.eraseLocalTs := by
  cases msgs with
  | nil => rfl
  | cons m msgs =>
    have hpayload : WireMsg.payload (m :: msgs) = m.bytes ++ WireMsg.payload msgs := rfl
    rw [hpayload] at hmem ⊢
    have hfirst := (ByteWindow.holds_append.mp hmem).1
    have htype : mem (payload + 4) = m.msgType := hfirst.apply_eq m.getElem?_bytes_four
    have hsize : sizeofWireBBO ≤ (m.bytes ++ WireMsg.payload msgs).length := by
      rw [List.length_append]
      exact m.sizeofWireBBO_le_length.trans (Nat.le_add_right ..)
    have hsome : ¬(m.bytes ++ WireMsg.payload msgs).length < 1 := by
      simp only [sizeofWireBBO] at hsize
      omega
    have hm := hwf m List.mem_cons_self
    unfold dispatchPayload
    dsimp only
    rw [if_neg hsome, htype]
    cases m with
    | bbo w =>
      have hbbo : (WireMsg.bbo w).msgType = wireBbo ∨ (WireMsg.bbo w).msgType = wireTrade := hm.2
      rw [if_pos hbbo, Normalizer.parseBbo_of_holds hm hfirst hsize]
      simp [hcallback, WireMsg.event, BBOEvent.eraseLocalTs]
    | depth w =>
      have hdepth : (WireMsg.depth w).msgType = wireDepth := hm.2
      rw [hdepth, if_neg (by decide), if_pos rfl]
      split <;> rfl

/-- **Live feed and replay.**  For every payload of well-formed messages that fits a packet, in any
two memories, the callbacks of the feed and of the replay get the same events up to the local time
stamps exactly when all the messages but the first are depth updates. -/
theorem feed_agreement_iff {h : FeedHandler} {r : PcapReplayer} (hcallback : h.bboCallback = true)
    (rcallback : r.bboCb = true) {msgs : List WireMsg} (hwf : ∀ m ∈ msgs, m.WellFormed)
    (hsize : (WireMsg.payload msgs).length ≤ 2048) {mem mem' : ℕ → UInt8} {buf payload : ℕ}
    (hmem : Holds mem buf (WireMsg.payload msgs))
    (hmem' : Holds mem' payload (WireMsg.payload msgs)) (localTs pktTsNs : ℕ) :
    (h.processPacket mem buf (WireMsg.payload msgs).length localTs).2.map BBOEvent.eraseLocalTs =
        (r.dispatchPayload mem' payload (WireMsg.payload msgs).length pktTsNs).2.bbo.map
          BBOEvent.eraseLocalTs ↔
      ∀ m ∈ msgs.drop 1, m.isDepth = true := by
  rw [FeedHandler.processPacket_payload hcallback hwf hsize hmem,
    PcapReplayer.dispatchPayload_payload rcallback hwf hmem']
  have hsplit : msgs.filterMap WireMsg.event =
      (msgs.take 1).filterMap WireMsg.event ++ (msgs.drop 1).filterMap WireMsg.event := by
    rw [← List.filterMap_append, List.take_append_drop]
  have hnone (m : WireMsg) : m.event = none ↔ m.isDepth = true := by
    cases m with
    | bbo w => simp [WireMsg.event, WireMsg.isDepth]
    | depth w => simp [WireMsg.event, WireMsg.isDepth]
  rw [hsplit, List.map_append, List.append_right_eq_self, List.map_eq_nil_iff,
    List.filterMap_eq_nil_iff]
  simp only [hnone]

/-- A fresh feed handler with its callback. -/
def FeedHandler.listening : FeedHandler where
  exchange := .internal
  bboQueue := .empty (fun _ => {}) SPSCQueue.capacity_4096
  bboCallback := true
  rxMsgs := 0
  dropped := 0

/-- A fresh replayer with both callbacks. -/
def PcapReplayer.listening : PcapReplayer where
  exchange := .internal
  bboCb := true
  depthCb := true
  msgsReplayed := 0
  parseErrors := 0

/-- A quote of 99 to 101 for instrument 1. -/
def sampleQuote : WireMsg :=
  .bbo ⟨wireMagic, wireBbo, (0, 0, 0), 1, 5, 99, 101, 10, 10⟩

/-- A trade at 100 in instrument 1. -/
def sampleTrade : WireMsg :=
  .bbo ⟨wireMagic, wireTrade, (0, 0, 0), 1, 6, 100, 0, 3, 0⟩

/-- A depth update without levels for instrument 1. -/
def sampleDepth : WireMsg :=
  .depth ⟨wireMagic, wireDepth, 0, 0, 0, 1, 7, .replicate 5 ⟨0, 0⟩, .replicate 5 ⟨0, 0⟩⟩

/-- A quote before a depth update comes through both ways. -/
theorem feed_agreement_quote_depth :
    (FeedHandler.listening.processPacket
        (fun i => (WireMsg.payload [sampleQuote, sampleDepth]).getD i 0) 0
        (WireMsg.payload [sampleQuote, sampleDepth]).length 9).2.map BBOEvent.eraseLocalTs =
      (PcapReplayer.listening.dispatchPayload
        (fun i => (WireMsg.payload [sampleQuote, sampleDepth]).getD i 0) 0
        (WireMsg.payload [sampleQuote, sampleDepth]).length 8).2.bbo.map BBOEvent.eraseLocalTs :=
  (feed_agreement_iff (h := FeedHandler.listening) (r := PcapReplayer.listening) rfl rfl (by decide)
    (by simp [WireMsg.payload, WireMsg.length_bytes, WireMsg.isDepth, sampleQuote, sampleDepth,
      sizeofWireBBO, sizeofWireDepth])
    (ByteWindow.holds_getD _ _) (ByteWindow.holds_getD _ _) 9 8).mpr (by decide)

/-- Of a quote and a trade in one packet, the replay has the quote only. -/
theorem feed_agreement_trade :
    ¬∀ (h : FeedHandler) (r : PcapReplayer), h.bboCallback = true → r.bboCb = true →
      ∀ msgs : List WireMsg, (∀ m ∈ msgs, m.WellFormed) → (WireMsg.payload msgs).length ≤ 2048 →
      ∀ (mem : ℕ → UInt8) (buf : ℕ), Holds mem buf (WireMsg.payload msgs) →
      ∀ localTs pktTsNs : ℕ,
        (h.processPacket mem buf (WireMsg.payload msgs).length localTs).2.map
            BBOEvent.eraseLocalTs =
          (r.dispatchPayload mem buf (WireMsg.payload msgs).length pktTsNs).2.bbo.map
            BBOEvent.eraseLocalTs := by
  intro hclaim
  have hwf : ∀ m ∈ [sampleQuote, sampleTrade], m.WellFormed := by decide
  have hmem := ByteWindow.holds_getD (WireMsg.payload [sampleQuote, sampleTrade]) 0
  have hagree := hclaim .listening .listening rfl rfl _ hwf (by decide) _ _ hmem 0 0
  rw [FeedHandler.processPacket_payload rfl hwf (by decide) hmem,
    PcapReplayer.dispatchPayload_payload rfl hwf hmem] at hagree
  exact absurd (congrArg List.length hagree) (by decide)

end QuantTrade
