import QuantTrade.MarketData.Wire

/-!
# The normalizer

`Normalizer` of `src/market_data/normalizer.cpp`.  A buffer is a memory and the index at which it
begins; the functions are given its length as well.  `parse_batch` cuts a packet into messages by
their types and parses the quotes and trades among them (`parseBatch_payload`).
-/

namespace QuantTrade

open ByteWindow (window Holds holds_append)

/-- The formats of the exchanges. -/
inductive ExchangeType where
  | internal
  | binance
  | cffex
  | sseStep
  deriving DecidableEq, Repr

namespace Normalizer

/-- `parse_internal_bbo`. -/
def parseInternalBbo (mem : ℕ → UInt8) (buf len : ℕ) : Option BBOEvent :=
  if len < sizeofWireBBO then none
  else
    let wire := WireBBO.ofBytes (window mem buf sizeofWireBBO)
    if wire.magic ≠ wireMagic then none
    else if wire.msgType ≠ wireBbo ∧ wire.msgType ≠ wireTrade then none
    else some wire.event

/-- `bid_levels` or `ask_levels` of an event: at most `MARKET_DEPTH`. -/
def clampLevels (levels : UInt8) : ℕ :=
  if levels.toNat < marketDepth then levels.toNat else marketDepth

lemma clampLevels_le (levels : UInt8) : clampLevels levels ≤ marketDepth := by
  unfold clampLevels
  split_ifs with h
  · exact h.le
  · exact le_rfl

/-- The levels that count, with the others left at zero. -/
def copyLevels (n : ℕ) (levels : Vector WireDepthLevel marketDepth) :
    Vector PriceLevel marketDepth :=
  Vector.ofFn fun i => if i < n then (levels.get i).level else {}

/-- `parse_internal_depth`. -/
def parseInternalDepth (mem : ℕ → UInt8) (buf len : ℕ) : Option DepthEvent :=
  if len < sizeofWireDepth then none
  else
    let wire := WireDepth.ofBytes (window mem buf sizeofWireDepth)
    if wire.magic ≠ wireMagic then none
    else if wire.msgType ≠ wireDepth then none
    else some
      { tsNs := wire.exchangeTsNs.toNat
        instrumentId := wire.instrumentId.toNat
        bidLevels := clampLevels wire.bidLevels
        askLevels := clampLevels wire.askLevels
        bids := copyLevels (clampLevels wire.bidLevels) wire.bids
        asks := copyLevels (clampLevels wire.askLevels) wire.asks
        bidLevels_le := clampLevels_le _
        askLevels_le := clampLevels_le _ }

/-- `parse_binance_bbo`: the magic number is not checked. -/
def parseBinanceBbo (mem : ℕ → UInt8) (buf len : ℕ) : Option BBOEvent :=
  if len < sizeofWireBBO then none
  else
    let wire := WireBBO.ofBytes (window mem buf sizeofWireBBO)
    if wire.msgType ≠ wireBbo ∧ wire.msgType ≠ wireTrade then none
    else some wire.event

/-- `parse_bbo`. -/
def parseBbo (mem : ℕ → UInt8) (buf len : ℕ) : ExchangeType → Option BBOEvent
  | .internal | .cffex | .sseStep => parseInternalBbo mem buf len
  | .binance => parseBinanceBbo mem buf len

/-- `parse_depth`. -/
def parseDepth (mem : ℕ → UInt8) (buf len : ℕ) : ExchangeType → Option DepthEvent
  | .internal | .cffex | .sseStep | .binance => parseInternalDepth mem buf len

/-- The loop of `parse_batch`, from an offset on, with the events found so far. -/
def parseBatchFrom (mem : ℕ → UInt8) (buf len maxOut : ℕ) (exchange : ExchangeType) (offset : ℕ)
    (out : List BBOEvent) : List BBOEvent :=
  if offset < len ∧ out.length < maxOut then
    if len - offset < sizeofWireBBO then out
    else
      let msg := buf + offset
      let msgType := mem (msg + 4)
      if msgType = wireBbo ∨ msgType = wireTrade then
        parseBatchFrom mem buf len maxOut exchange (offset + sizeofWireBBO)
          (out ++ (parseBbo mem msg (len - offset) exchange).toList)
      else if msgType = wireDepth then
        -- depth updates are skipped
        parseBatchFrom mem buf len maxOut exchange (offset + sizeofWireDepth) out
      else out
  else out
termination_by len - offset
decreasing_by
  · simp only [sizeofWireBBO]
    omega
  · simp only [sizeofWireDepth]
    omega

/-- `parse_batch`: the events written to `out_buf`. -/
def parseBatch (mem : ℕ → UInt8) (buf len maxOut : ℕ) (exchange : ExchangeType) : List BBOEvent :=
  parseBatchFrom mem buf len maxOut exchange 0 []

/-! ## Well-formed messages -/

section Messages

variable {mem : ℕ → UInt8} {buf len : ℕ}

/-- A quote or a trade is parsed into its event, whatever the exchange. -/
lemma parseBbo_of_holds {w : WireBBO} (hw : (WireMsg.bbo w).WellFormed)
    (hmem : Holds mem buf w.bytes) (hlen : sizeofWireBBO ≤ len) (exchange : ExchangeType) :
    parseBbo mem buf len exchange = some w.event := by
  obtain ⟨hmagic, htype⟩ := hw
  have hwindow : window mem buf sizeofWireBBO = w.bytes := by
    rw [← w.length_bytes]
    exact hmem
  have hknown : ¬(w.msgType ≠ wireBbo ∧ w.msgType ≠ wireTrade) := by
    rcases htype with h | h <;> simp [h]
  have hinternal : parseInternalBbo mem buf len = some w.event := by
    unfold parseInternalBbo
    dsimp only
    rw [if_neg (by omega), hwindow, w.ofBytes_bytes, if_neg (not_not.mpr hmagic), if_neg hknown]
  have hbinance : parseBinanceBbo mem buf len = some w.event := by
    unfold parseBinanceBbo
    dsimp only
    rw [if_neg (by omega), hwindow, w.ofBytes_bytes, if_neg hknown]
  cases exchange with
  | internal => exact hinternal
  | binance => exact hbinance
  | cffex => exact hinternal
  | sseStep => exact hinternal

/-- The loop finds the events of the messages that are left, when there is room for them. -/
lemma parseBatchFrom_payload {msgs : List WireMsg} {maxOut offset : ℕ} {out : List BBOEvent}
    (hwf : ∀ m ∈ msgs, m.WellFormed) (hmem : Holds mem (buf + offset) (WireMsg.payload msgs))
    (hlen : len = offset + (WireMsg.payload msgs).length)
    (hroom : out.length + msgs.length ≤ maxOut) (exchange : ExchangeType) :
    parseBatchFrom mem buf len maxOut exchange offset out =
      out ++ msgs.filterMap WireMsg.event := by
  induction msgs generalizing offset out with
  | nil =>
    have hend : ¬(offset < len ∧ out.length < maxOut) := by
      rw [hlen, WireMsg.payload, List.flatMap_nil, List.length_nil]
      omega
    rw [parseBatchFrom, if_neg hend, List.filterMap_nil, List.append_nil]
  | cons m msgs ih =>
    have hpayload : WireMsg.payload (m :: msgs) = m.bytes ++ WireMsg.payload msgs := rfl
    rw [hpayload, holds_append] at hmem
    rw [hpayload, List.length_append] at hlen
    rw [List.length_cons] at hroom
    obtain ⟨hfirst, hrest⟩ := hmem
    have hsize := m.sizeofWireBBO_le_length
    have hpos : 0 < sizeofWireBBO := by decide
    have htype : mem (buf + offset + 4) = m.msgType := hfirst.apply_eq m.getElem?_bytes_four
    rw [parseBatchFrom, if_pos ⟨by omega, by omega⟩, if_neg (by omega)]
    dsimp only
    rw [htype]
    have hm := hwf m List.mem_cons_self
    have hwf' : ∀ m' ∈ msgs, m'.WellFormed := fun m' h => hwf m' (List.mem_cons_of_mem m h)
    cases m with
    | bbo w =>
      have hbytes : (WireMsg.bbo w).bytes.length = sizeofWireBBO := w.length_bytes
      have hbbo : (WireMsg.bbo w).msgType = wireBbo ∨ (WireMsg.bbo w).msgType = wireTrade := hm.2
      rw [hbytes, Nat.add_assoc] at hrest
      rw [if_pos hbbo, parseBbo_of_holds hm hfirst (by omega)]
      rw [ih hwf' hrest (by omega)]
      · simp [WireMsg.event]
      · rw [Option.toList_some, List.length_append, List.length_singleton]
        omega
    | depth w =>
      have hbytes : (WireMsg.depth w).bytes.length = sizeofWireDepth := w.length_bytes
      have hdepth : (WireMsg.depth w).msgType = wireDepth := hm.2
      rw [hbytes, Nat.add_assoc] at hrest
      rw [hdepth, if_neg (by decide), if_pos rfl, ih hwf' hrest (by omega) (by omega)]
      rfl

/-- **A batch.**  A packet of well-formed messages is parsed into the events of its quotes and
trades, in order. -/
theorem parseBatch_payload {msgs : List WireMsg} {maxOut : ℕ} (hwf : ∀ m ∈ msgs, m.WellFormed)
    (hmem : Holds mem buf (WireMsg.payload msgs)) (hroom : msgs.length ≤ maxOut)
    (exchange : ExchangeType) :
    parseBatch mem buf (WireMsg.payload msgs).length maxOut exchange =
      msgs.filterMap WireMsg.event := by
  rw [parseBatch, parseBatchFrom_payload hwf hmem (Nat.zero_add _).symm (by simpa using hroom),
    List.nil_append]

end Messages

end Normalizer

end QuantTrade
