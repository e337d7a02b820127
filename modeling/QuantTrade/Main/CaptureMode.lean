import QuantTrade.MarketData.DepthRoundTrip
import QuantTrade.MarketData.ReplayEndian

/-!
# Capture mode

The market data thread of `src/main.cpp` when it has a capture file: `PcapReplayer::replay` with the
callbacks that keep the books and hand the quotes to the strategies through `StrategyManager`.

A capture of packets with well-formed messages makes the same of the books and of every strategy as
the first messages of its packets would, one after the other (`replay_messages`).
-/

namespace QuantTrade

open ByteWindow (Holds holds_append)

/-! ## The strategies -/

/-- A callback of `StrategyManager`, with the strategy that it has a reference to. -/
structure BboHandler where
  Strategy : Type
  onBbo : Strategy → BBOEvent → Strategy
  strategy : Strategy

namespace BboHandler

/-- A call of the callback. -/
def handle (h : BboHandler) (e : BBOEvent) : BboHandler :=
  { h with strategy := h.onBbo h.strategy e }

/-- The callback after some calls. -/
def handleAll (h : BboHandler) (es : List BBOEvent) : BboHandler :=
  { h with strategy := es.foldl h.onBbo h.strategy }

end BboHandler

/-- `StrategyManager`. -/
structure StrategyManager where
  bboHandlers : List BboHandler

namespace StrategyManager

/-- No strategies. -/
def init : StrategyManager where
  bboHandlers := []

/-- `register_strategy`. -/
def registerStrategy (m : StrategyManager) (h : BboHandler) : StrategyManager where
  bboHandlers := m.bboHandlers ++ [h]

/-- `dispatch_bbo`. -/
def dispatchBbo (m : StrategyManager) (e : BBOEvent) : StrategyManager where
  bboHandlers := m.bboHandlers.map fun h => h.handle e

/-- No strategy sees what another one does. -/
lemma foldl_dispatchBbo (m : StrategyManager) (es : List BBOEvent) :
    (es.foldl dispatchBbo m).bboHandlers = m.bboHandlers.map fun h => h.handleAll es := by
  induction es generalizing m with
  | nil => exact (List.map_id _).symm
  | cons e es ih =>
    rw [List.foldl_cons, ih, dispatchBbo, List.map_map]
    rfl

end StrategyManager

/-! ## The callbacks -/

/-- What the callbacks of the market data thread change. -/
structure MarketData where
  bookBuilder : BookBuilder
  strategyMgr : StrategyManager

namespace MarketData

/-- The callback for quotes and trades. -/
def onBbo (s : MarketData) (e : BBOEvent) : MarketData where
  bookBuilder := s.bookBuilder.onBbo e
  strategyMgr := s.strategyMgr.dispatchBbo e

/-- The callback for depth updates. -/
def onDepth (s : MarketData) (e : DepthEvent) : MarketData :=
  { s with bookBuilder := s.bookBuilder.onDepth e }

/-- The calls that a packet makes. -/
def onCalls (s : MarketData) (calls : ReplayCalls) : MarketData :=
  calls.depth.foldl onDepth (calls.bbo.foldl onBbo s)

/-- The call that an event makes. -/
def onEvent (s : MarketData) : FeedEvent → MarketData
  | .bbo e => s.onBbo e
  | .depth e => s.onDepth e

/-- The quotes and trades among some events. -/
def quotes (es : List FeedEvent) : List BBOEvent :=
  es.filterMap fun
    | .bbo e => some e
    | .depth _ => none

lemma bookBuilder_foldl (s : MarketData) (es : List FeedEvent) :
    (es.foldl onEvent s).bookBuilder = Transition.run BookBuilder.onEvent s.bookBuilder es := by
  induction es generalizing s with
  | nil => rfl
  | cons e es ih =>
    rw [List.foldl_cons, ih]
    cases e <;> rfl

lemma strategyMgr_foldl (s : MarketData) (es : List FeedEvent) :
    (es.foldl onEvent s).strategyMgr =
      (quotes es).foldl StrategyManager.dispatchBbo s.strategyMgr := by
  induction es generalizing s with
  | nil => rfl
  | cons e es ih =>
    rw [List.foldl_cons, ih]
    cases e <;> rfl

end MarketData

/-! ## Captures of messages -/

/-- The event of a message, with the time of its packet. -/
def WireMsg.feedEvent (ts : ℕ) : WireMsg → FeedEvent
  | bbo w => .bbo { w.event with localTsNs := ts }
  | depth w => .depth { Normalizer.depthEvent w with tsNs := ts }

/-- The event has the fields of the message, and `ts` as its time. -/
def WireMsg.DecodedAs (ts : ℕ) : WireMsg → FeedEvent → Prop
  | bbo w, .bbo e => w.DecodedAs ts e
  | depth w, .depth e => e = { w.shown with tsNs := ts }
  | _, _ => False

lemma WireMsg.decodedAs_feedEvent (ts : ℕ) (m : WireMsg) : m.DecodedAs ts (m.feedEvent ts) := by
  cases m with
  | bbo w => exact { w.decodedAs_event with localTsNs := rfl }
  | depth w =>
    rw [feedEvent, DecodedAs, Normalizer.depthEvent_eq]

/-- The callback that an event is for. -/
def ReplayCalls.ofEvent : FeedEvent → ReplayCalls
  | .bbo e => { bbo := [e] }
  | .depth e => { depth := [e] }

lemma MarketData.onCalls_ofEvent (s : MarketData) (e : FeedEvent) :
    s.onCalls (.ofEvent e) = s.onEvent e := by
  cases e <;> rfl

/-- A datagram in a capture: when it was captured, the headers in front of it, and its messages. -/
structure Datagram where
  tsSec : UInt32
  tsUsec : UInt32
  origLen : UInt32
  headers : List UInt8
  messages : List WireMsg

namespace Datagram

/-- The bytes of the packet. -/
def data (d : Datagram) : List UInt8 :=
  d.headers ++ WireMsg.payload d.messages

/-- The packet in the capture. -/
def packet (d : Datagram) : PcapPacket where
  header := ⟨d.tsSec, d.tsUsec, UInt32.ofNat d.data.length, d.origLen⟩
  data := d.data

/-- The headers have the length that the replay takes for granted, the messages are well formed, and
the length of the packet fits into its header. -/
structure WellFormed (d : Datagram) : Prop where
  headers : d.headers.length = l2l3l4Offset
  messages : ∀ m ∈ d.messages, m.WellFormed
  length_lt : d.data.length < 2 ^ 32

/-- The event that is made of the packet, if it fits into the buffer: that of its first message. -/
def event (nanoTs : Bool) (d : Datagram) : Option FeedEvent :=
  if d.data.length ≤ sizeofPktBuf then
    d.messages.head?.map fun m => m.feedEvent (Replay.pktTsNs nanoTs d.packet.header).toNat
  else none

/-- The packet fits into the buffer and carries a message. -/
def Delivered (d : Datagram) : Prop :=
  d.data.length ≤ sizeofPktBuf ∧ d.messages ≠ []

instance : DecidablePred Delivered :=
  fun _ => inferInstanceAs (Decidable (_ ∧ _))

/-- The event is that of the packet's first message, with the time of the packet. -/
def DecodedAs (nanoTs : Bool) (d : Datagram) (e : FeedEvent) : Prop :=
  ∃ m, d.messages.head? = some m ∧ m.DecodedAs (Replay.pktTsNs nanoTs d.packet.header).toNat e

/-- The events of some packets are those of their first messages, one for one. -/
lemma forall₂_decodedAs (nanoTs : Bool) (ds : List Datagram) :
    List.Forall₂ (DecodedAs nanoTs) (ds.filter Delivered) (ds.filterMap (event nanoTs)) := by
  induction ds with
  | nil => exact .nil
  | cons d ds ih =>
    by_cases hdelivered : d.Delivered
    · obtain ⟨m, msgs, hmsgs⟩ := List.exists_cons_of_ne_nil hdelivered.2
      have hm : d.messages.head? = some m := by rw [hmsgs, List.head?_cons]
      have hevent : event nanoTs d =
          some (m.feedEvent (Replay.pktTsNs nanoTs d.packet.header).toNat) := by
        rw [event, if_pos hdelivered.1, hm, Option.map_some]
      rw [List.filter_cons_of_pos (by simpa using hdelivered), List.filterMap_cons_some hevent]
      exact .cons ⟨m, hm, m.decodedAs_feedEvent _⟩ ih
    · have hevent : event nanoTs d = none := by
        rw [Delivered, not_and_not_right] at hdelivered
        unfold event
        split_ifs with hfits
        · rw [hdelivered hfits, List.head?_nil, Option.map_none]
        · rfl
      rwa [List.filter_cons_of_neg (by simpa using hdelivered), List.filterMap_cons_none hevent]

lemma toNat_inclLen {d : Datagram} (hd : d.WellFormed) :
    d.packet.header.inclLen.toNat = d.data.length :=
  UInt32.toNat_ofNat_of_lt' hd.length_lt

end Datagram

/-! ## A packet -/

/-- A payload makes the call for its first message. -/
lemma PcapReplayer.dispatchPayload_cons {r : PcapReplayer} (hbbo : r.bboCb = true)
    (hdepth : r.depthCb = true) {m : WireMsg} {msgs : List WireMsg} (hm : m.WellFormed)
    {mem : ℕ → UInt8} {payload : ℕ} (hmem : Holds mem payload (WireMsg.payload (m :: msgs)))
    (ts : ℕ) :
    r.dispatchPayload mem payload (WireMsg.payload (m :: msgs)).length ts =
      ({ r with msgsReplayed := r.msgsReplayed + 1 }, .ofEvent (m.feedEvent ts)) := by
  have hpayload : WireMsg.payload (m :: msgs) = m.bytes ++ WireMsg.payload msgs := rfl
  rw [hpayload] at hmem ⊢
  have hfirst := (holds_append.mp hmem).1
  have htype : mem (payload + 4) = m.msgType := hfirst.apply_eq m.getElem?_bytes_four
  have hlength : m.bytes.length ≤ (m.bytes ++ WireMsg.payload msgs).length := by
    rw [List.length_append]
    exact Nat.le_add_right ..
  have hsome : ¬(m.bytes ++ WireMsg.payload msgs).length < 1 := by
    have hsize := m.sizeofWireBBO_le_length
    simp only [sizeofWireBBO] at hsize
    omega
  unfold dispatchPayload
  dsimp only
  rw [if_neg hsome, htype]
  cases m with
  | bbo w =>
    have hknown : (WireMsg.bbo w).msgType = wireBbo ∨ (WireMsg.bbo w).msgType = wireTrade := hm.2
    have hsize : sizeofWireBBO ≤ ((WireMsg.bbo w).bytes ++ WireMsg.payload msgs).length :=
      w.length_bytes ▸ hlength
    rw [if_pos hknown, Normalizer.parseBbo_of_holds hm hfirst hsize]
    simp [hbbo, WireMsg.feedEvent, ReplayCalls.ofEvent]
  | depth w =>
    have hknown : (WireMsg.depth w).msgType = wireDepth := hm.2
    have hsize : sizeofWireDepth ≤ ((WireMsg.depth w).bytes ++ WireMsg.payload msgs).length :=
      w.length_bytes ▸ hlength
    rw [hknown, if_neg (by decide), if_pos rfl, Normalizer.parseDepth_of_holds hm hfirst hsize]
    simp [hdepth, WireMsg.feedEvent, ReplayCalls.ofEvent]

namespace Replay

/-- The buffer has the packet after it was read. -/
lemma holds_fill (pktBuf : ℕ → UInt8) (data : List UInt8) : Holds (fill pktBuf data) 0 data := by
  unfold Holds ByteWindow.window
  apply List.ext_getElem
  · simp
  · intro i hi _
    simp at hi
    simp [fill, hi]

/-- What is done before the payload counts the packet, and leaves what the payload is about. -/
lemma arrive_frame (clock : ℕ → UInt64) (r : Replay) (ts : UInt64) :
    (r.arrive clock ts).pktsReplayed = r.pktsReplayed + 1 ∧
      (r.arrive clock ts).replayer = r.replayer ∧ (r.arrive clock ts).calls = r.calls ∧
      (r.arrive clock ts).nanoTs = r.nanoTs ∧ (r.arrive clock ts).pktBuf = r.pktBuf := by
  unfold arrive reference pace
  dsimp only
  split_ifs <;> cases r.mode <;> exact ⟨rfl, rfl, rfl, rfl, rfl⟩

/-- Both callbacks are registered. -/
def Registered (r : PcapReplayer) : Prop :=
  r.bboCb = true ∧ r.depthCb = true

/-- A packet that fits into the buffer makes the call for its event. -/
lemma deliver_packet (clock : ℕ → UInt64) {d : Datagram} (hd : d.WellFormed)
    (hfits : d.data.length ≤ sizeofPktBuf) {r : Replay} (hcb : Registered r.replayer) :
    (r.deliver clock d.packet).pktsReplayed = r.pktsReplayed + 1 ∧
      (r.deliver clock d.packet).nanoTs = r.nanoTs ∧
      (r.deliver clock d.packet).replayer =
        { r.replayer with
          msgsReplayed := r.replayer.msgsReplayed + (d.event r.nanoTs).toList.length } ∧
      (r.deliver clock d.packet).calls =
        r.calls ++ (d.event r.nanoTs).toList.map ReplayCalls.ofEvent := by
  obtain ⟨hpkts, hreplayer, hcalls, hnano, hbuf⟩ := arrive_frame clock
    { r with pktBuf := fill r.pktBuf d.data } (pktTsNs r.nanoTs d.packet.header)
  have hlength : d.data.length = l2l3l4Offset + (WireMsg.payload d.messages).length := by
    rw [Datagram.data, List.length_append, hd.headers]
  unfold deliver
  dsimp only [Datagram.packet] at hpkts hreplayer hcalls hnano hbuf ⊢
  rw [UInt32.toNat_ofNat_of_lt' hd.length_lt, Datagram.event, if_pos hfits]
  cases hmessages : d.messages with
  | nil =>
    -- there is nothing behind the headers
    have hshort : d.data.length ≤ l2l3l4Offset := by
      rw [hlength, hmessages]
      exact le_rfl
    unfold dispatch
    rw [if_pos hshort]
    exact ⟨hpkts, hnano, by simp [hreplayer], by simp [hcalls]⟩
  | cons m msgs =>
    have hm := hd.messages m (hmessages ▸ List.mem_cons_self)
    have hsize : 0 < (WireMsg.payload (m :: msgs)).length := by
      have hcount := WireMsg.length_mul_le_payload (m :: msgs)
      simp only [sizeofWireBBO, List.length_cons] at hcount
      omega
    rw [hmessages] at hlength
    have hlong : ¬d.data.length ≤ l2l3l4Offset := by omega
    have hpayload : d.data.length - l2l3l4Offset = (WireMsg.payload (m :: msgs)).length := by omega
    have hholds : Holds (fill r.pktBuf d.data) l2l3l4Offset (WireMsg.payload (m :: msgs)) := by
      have hdata := holds_fill r.pktBuf d.data
      rw [Datagram.data, holds_append, hd.headers, Nat.zero_add, hmessages] at hdata
      rw [Datagram.data, hmessages]
      exact hdata.2
    unfold dispatch
    rw [if_neg hlong, hbuf, hreplayer, hpayload,
      PcapReplayer.dispatchPayload_cons hcb.1 hcb.2 hm hholds]
    exact ⟨hpkts, hnano, rfl, congrArg (· ++ _) hcalls⟩

/-! ## A capture -/

/-- Packets that fit into the buffer make the calls for their events. -/
lemma foldl_deliver_packet (clock : ℕ → UInt64) {ds : List Datagram}
    (hds : ∀ d ∈ ds, d.WellFormed ∧ d.data.length ≤ sizeofPktBuf) {r : Replay}
    (hcb : Registered r.replayer) :
    ((ds.map Datagram.packet).foldl (deliver clock) r).pktsReplayed =
        r.pktsReplayed + ds.length ∧
      ((ds.map Datagram.packet).foldl (deliver clock) r).replayer =
        { r.replayer with
          msgsReplayed := r.replayer.msgsReplayed +
            (ds.filterMap (Datagram.event r.nanoTs)).length } ∧
      ((ds.map Datagram.packet).foldl (deliver clock) r).calls =
        r.calls ++ (ds.filterMap (Datagram.event r.nanoTs)).map ReplayCalls.ofEvent := by
  induction ds generalizing r with
  | nil => exact ⟨rfl, rfl, (List.append_nil _).symm⟩
  | cons d ds ih =>
    obtain ⟨⟨hd, hfits⟩, hrest⟩ := List.forall_mem_cons.mp hds
    obtain ⟨hpkts, hnano, hreplayer, hcalls⟩ := deliver_packet clock hd hfits hcb
    have hcb' : Registered (r.deliver clock d.packet).replayer := by
      rw [hreplayer]
      exact hcb
    obtain ⟨hpkts', hreplayer', hcalls'⟩ := ih hrest hcb'
    have hevents : (d :: ds).filterMap (Datagram.event r.nanoTs) =
        (d.event r.nanoTs).toList ++ ds.filterMap (Datagram.event r.nanoTs) := by
      rw [List.filterMap_cons]
      cases d.event r.nanoTs <;> rfl
    rw [List.map_cons, List.foldl_cons, hpkts', hreplayer', hcalls', hnano, hpkts, hreplayer,
      hcalls, hevents, List.length_append, List.length_cons, List.map_append, List.append_assoc]
    exact ⟨by omega, by rw [Nat.add_assoc], rfl⟩

/-- A packet that does not fit into the buffer makes no event. -/
lemma filterMap_event_filter (nanoTs : Bool) (ds : List Datagram) :
    (ds.filter fun d => d.data.length ≤ sizeofPktBuf).filterMap (Datagram.event nanoTs) =
      ds.filterMap (Datagram.event nanoTs) := by
  rw [List.filterMap_filter]
  apply List.filterMap_congr
  intro d _
  by_cases hfits : d.data.length ≤ sizeofPktBuf
  · simp [hfits]
  · simp [hfits, Datagram.event]

/-- The file of a capture with microseconds in either byte order, or with nanoseconds in the byte
order of the machine, is one that `open_file` accepts. -/
def Accepted (gh : PcapGlobalHeader) (swapped nanoTs : Bool) : Prop :=
  if nanoTs then gh.magicNumber = pcapMagicNs ∧ swapped = false
  else gh.magicNumber = pcapMagicLe

instance (gh : PcapGlobalHeader) (swapped nanoTs : Bool) : Decidable (Accepted gh swapped nanoTs) :=
  inferInstanceAs (Decidable (if nanoTs then _ ∧ _ else _))

lemma openFile_of_accepted {gh : PcapGlobalHeader} {swapped nanoTs : Bool}
    (h : Accepted gh swapped nanoTs) (ps : List PcapPacket) :
    openFile (Capture.bytes swapped ⟨gh, ps⟩) = some (nanoTs, swapped, bodyBytes swapped ps) := by
  rw [openFile_bytes]
  cases nanoTs with
  | true =>
    obtain ⟨hmagic, rfl⟩ := h
    dsimp only
    rw [hmagic, if_neg (by decide), if_pos (by decide)]
  | false =>
    have hmagic : gh.magicNumber = pcapMagicLe := h
    dsimp only
    rw [hmagic]
    cases swapped with
    | false => rw [if_pos (by decide)]
    | true => rw [if_neg (by decide), if_neg (by decide), if_pos (by decide)]

/-- The packets that are read are those that fit into the buffer. -/
lemma packets_datagrams (swapped : Bool) {ds : List Datagram} (hds : ∀ d ∈ ds, d.WellFormed) :
    packets swapped (bodyBytes swapped (ds.map Datagram.packet)) =
      (ds.filter fun d => d.data.length ≤ sizeofPktBuf).map Datagram.packet := by
  have hlength : ∀ p ∈ ds.map Datagram.packet, p.data.length = p.header.inclLen.toNat := by
    intro p hp
    obtain ⟨d, hd, rfl⟩ := List.mem_map.mp hp
    exact (Datagram.toNat_inclLen (hds d hd)).symm
  rw [packets_body swapped hlength, List.filter_map]
  congr 1
  apply List.filter_congr
  intro d hd
  simp [Datagram.toNat_inclLen (hds d hd)]

/-- A capture is replayed to its end, one packet after the other. -/
lemma replay_datagrams (replayer : PcapReplayer) (mode : ReplayMode) (pktsReplayed : ℕ)
    (clock : ℕ → UInt64) (pktBuf : ℕ → UInt8) {gh : PcapGlobalHeader} {swapped nanoTs : Bool}
    (hgh : Accepted gh swapped nanoTs) {ds : List Datagram} (hds : ∀ d ∈ ds, d.WellFormed) :
    replay replayer mode pktsReplayed clock pktBuf
        (Capture.bytes swapped ⟨gh, ds.map Datagram.packet⟩) =
      some (((ds.filter fun d => d.data.length ≤ sizeofPktBuf).map Datagram.packet).foldl
        (deliver clock) (start replayer mode pktsReplayed clock pktBuf nanoTs swapped)) := by
  rw [replay, openFile_of_accepted hgh, ← packets_datagrams swapped hds]
  exact congrArg some (loop_eq clock _ _)

/-- The calls that are made for some events. -/
lemma foldl_onCalls (s : MarketData) (es : List FeedEvent) :
    (es.map ReplayCalls.ofEvent).foldl MarketData.onCalls s = es.foldl MarketData.onEvent s := by
  rw [List.foldl_map]
  simp only [MarketData.onCalls_ofEvent]

/-- **Replay of a capture.**  A capture of datagrams with well-formed messages, in either byte
order, is replayed to its end, in either mode and whatever the clock says and was in the buffer:
every packet that fits into the buffer is counted, and its first message is the one that is called
back, field by field and with the time of the packet.  In the end the book of every instrument is
what these events make of it, one after the other, and every strategy has seen the quotes and trades
among them. -/
theorem replay_messages {replayer : PcapReplayer} (hcb : Registered replayer) (mode : ReplayMode)
    (pktsReplayed : ℕ) (clock : ℕ → UInt64) (pktBuf : ℕ → UInt8) {gh : PcapGlobalHeader}
    {swapped nanoTs : Bool} (hgh : Accepted gh swapped nanoTs) {ds : List Datagram}
    (hds : ∀ d ∈ ds, d.WellFormed) (s : MarketData) :
    ∃ r, replay replayer mode pktsReplayed clock pktBuf
        (Capture.bytes swapped ⟨gh, ds.map Datagram.packet⟩) = some r ∧
      let es := ds.filterMap (Datagram.event nanoTs)
      let s' := r.calls.foldl MarketData.onCalls s
      r.pktsReplayed = pktsReplayed + ds.countP (fun d => d.data.length ≤ sizeofPktBuf) ∧
      r.replayer.msgsReplayed = replayer.msgsReplayed + es.length ∧
      r.replayer.parseErrors = replayer.parseErrors ∧
      (∀ id, s'.bookBuilder.get id =
        Transition.run OrderBook.apply (s.bookBuilder.get id) (es.filter (·.instrumentId = id))) ∧
      s'.strategyMgr.bboHandlers =
        s.strategyMgr.bboHandlers.map (fun h => h.handleAll (MarketData.quotes es)) ∧
      List.Forall₂ (Datagram.DecodedAs nanoTs) (ds.filter Datagram.Delivered) es := by
  have hfit : ∀ d ∈ ds.filter fun d => d.data.length ≤ sizeofPktBuf,
      d.WellFormed ∧ d.data.length ≤ sizeofPktBuf := by
    intro d hd
    obtain ⟨hd, hfits⟩ := List.mem_filter.mp hd
    exact ⟨hds d hd, of_decide_eq_true hfits⟩
  obtain ⟨hpkts, hreplayer, hcalls⟩ := foldl_deliver_packet clock hfit
    (show Registered (start replayer mode pktsReplayed clock pktBuf nanoTs swapped).replayer
      from hcb)
  have hnano : (start replayer mode pktsReplayed clock pktBuf nanoTs swapped).nanoTs = nanoTs := rfl
  rw [hnano, filterMap_event_filter] at hreplayer hcalls
  have hfold : (((ds.filter fun d => d.data.length ≤ sizeofPktBuf).map Datagram.packet).foldl
      (deliver clock) (start replayer mode pktsReplayed clock pktBuf nanoTs swapped)).calls.foldl
        MarketData.onCalls s =
          (ds.filterMap (Datagram.event nanoTs)).foldl MarketData.onEvent s := by
    rw [hcalls]
    exact foldl_onCalls s _
  refine ⟨_, replay_datagrams replayer mode pktsReplayed clock pktBuf hgh hds, ?_, ?_, ?_,
    fun id => ?_, ?_, Datagram.forall₂_decodedAs nanoTs ds⟩
  · rw [hpkts, List.countP_eq_length_filter]
    rfl
  · rw [hreplayer]
    rfl
  · rw [hreplayer]
    rfl
  · rw [hfold, MarketData.bookBuilder_foldl, BookBuilder.get_run]
  · rw [hfold, MarketData.strategyMgr_foldl, StrategyManager.foldl_dispatchBbo]

/-- A strategy that remembers the quotes and trades it has seen. -/
def recorder : BboHandler where
  Strategy := List BBOEvent
  onBbo := fun seen e => seen ++ [e]
  strategy := []

/-- A quote with a trade behind it, and a depth update. -/
def sampleDatagrams : List Datagram :=
  [⟨1, 0, 146, List.replicate 42 0, [sampleQuote, sampleTrade]⟩,
    ⟨2, 0, 222, List.replicate 42 0, [sampleDepth]⟩]

/-- The recorder sees the quote only, at the time of its packet. -/
theorem replay_messages_sample :
    ∃ r, replay .listening .fastest 0 (fun _ => 0) (fun _ => 0)
        (Capture.bytes true ⟨⟨pcapMagicLe, 2, 4, 0, 0, 65535, 1⟩,
          sampleDatagrams.map Datagram.packet⟩) = some r ∧
      r.pktsReplayed = 2 ∧ r.replayer.msgsReplayed = 2 ∧
      (r.calls.foldl MarketData.onCalls
        ⟨.init, StrategyManager.init.registerStrategy recorder⟩).strategyMgr.bboHandlers =
        [recorder.handleAll [⟨5, 1000000000, 1, .bboUpdate, 99, 101, 10, 10⟩]] := by
  have hwf : ∀ d ∈ sampleDatagrams, d.WellFormed := by
    intro d hd
    simp only [sampleDatagrams, List.mem_cons, List.not_mem_nil, or_false] at hd
    rcases hd with rfl | rfl
    · exact ⟨rfl, by decide, by decide +kernel⟩
    · exact ⟨rfl, by decide, by decide +kernel⟩
  obtain ⟨r, hrun, hpkts, hmsgs, -, -, hstrategies, -⟩ :=
    replay_messages (show Registered .listening from ⟨rfl, rfl⟩) .fastest 0 (fun _ => 0)
      (fun _ => 0)
      (show Accepted ⟨pcapMagicLe, 2, 4, 0, 0, 65535, 1⟩ true false from rfl) hwf
      ⟨.init, StrategyManager.init.registerStrategy recorder⟩
  have hquotes : MarketData.quotes (sampleDatagrams.filterMap (Datagram.event false)) =
      [⟨5, 1000000000, 1, .bboUpdate, 99, 101, 10, 10⟩] := by
    decide +kernel
  refine ⟨r, hrun, hpkts.trans (by decide +kernel), hmsgs.trans (by decide +kernel), ?_⟩
  rw [hstrategies, hquotes]
  rfl

end Replay

end QuantTrade
