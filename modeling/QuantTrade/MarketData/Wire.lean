import QuantTrade.Library.ByteWindow
import QuantTrade.Library.Framing
import QuantTrade.Library.LittleEndian
import QuantTrade.MarketData.Types

/-!
# The wire format of the feed

The packed structs of `src/market_data/normalizer.hpp` as bytes, all fields little-endian: `WireBBO`
for quotes and trades, `WireDepth` for depth updates.  A field is read from its offset as it was
written (`WireBBO.ofBytes_bytes`).
-/

namespace QuantTrade

open LittleEndian (encode decode)

/-! ## Constants -/

/-- `WIRE_MAGIC`: the letters "HFT ". -/
def wireMagic : UInt32 := 0x48465420

def wireBbo : UInt8 := 0x01
def wireTrade : UInt8 := 0x02
def wireDepth : UInt8 := 0x03

/-- `sizeof(WireBBO)`. -/
def sizeofWireBBO : ℕ := 52

/-- `sizeof(WireDepthLevel)`. -/
def sizeofWireDepthLevel : ℕ := 16

/-- `sizeof(WireDepth)`. -/
def sizeofWireDepth : ℕ := 180

/-! ## Fields -/

/-- The bytes of a field at an offset. -/
def wireField (bytes : List UInt8) (offset size : ℕ) : List UInt8 :=
  (bytes.drop offset).take size

/-- A field of type `uint32_t`. -/
def readU32 (bytes : List UInt8) (offset : ℕ) : UInt32 :=
  UInt32.ofNat (decode (wireField bytes offset 4))

/-- A field of type `uint64_t`. -/
def readU64 (bytes : List UInt8) (offset : ℕ) : UInt64 :=
  UInt64.ofNat (decode (wireField bytes offset 8))

/-- A field of type `int64_t`. -/
def readI64 (bytes : List UInt8) (offset : ℕ) : Int64 :=
  (readU64 bytes offset).toInt64

/-- A field of type `uint8_t`. -/
def readU8 (bytes : List UInt8) (offset : ℕ) : UInt8 :=
  UInt8.ofNat (decode (wireField bytes offset 1))

def bytesU32 (x : UInt32) : List UInt8 := encode 4 x.toNat
def bytesU64 (x : UInt64) : List UInt8 := encode 8 x.toNat
def bytesI64 (x : Int64) : List UInt8 := bytesU64 x.toUInt64

@[simp] lemma length_bytesU32 (x : UInt32) : (bytesU32 x).length = 4 :=
  LittleEndian.length_encode ..

@[simp] lemma length_bytesU64 (x : UInt64) : (bytesU64 x).length = 8 :=
  LittleEndian.length_encode ..

@[simp] lemma length_bytesI64 (x : Int64) : (bytesI64 x).length = 8 := LittleEndian.length_encode ..

lemma ofNat_decode_bytesU32 (x : UInt32) : UInt32.ofNat (decode (bytesU32 x)) = x := by
  rw [bytesU32, LittleEndian.decode_encode_of_lt (show x.toNat < 256 ^ 4 from x.toNat_lt),
    UInt32.ofNat_toNat]

lemma ofNat_decode_bytesU64 (x : UInt64) : UInt64.ofNat (decode (bytesU64 x)) = x := by
  rw [bytesU64, LittleEndian.decode_encode_of_lt (show x.toNat < 256 ^ 8 from x.toNat_lt),
    UInt64.ofNat_toNat]

lemma toInt64_decode_bytesI64 (x : Int64) : (UInt64.ofNat (decode (bytesI64 x))).toInt64 = x := by
  rw [bytesI64, ofNat_decode_bytesU64]
  rfl

lemma ofNat_decode_singleton (b : UInt8) : UInt8.ofNat (decode [b]) = b := by
  simp [decode]

/-! ## Quotes and trades -/

/-- `WireBBO`; a trade has its price and quantity on the bid side. -/
structure WireBBO where
  magic : UInt32
  msgType : UInt8
  pad : UInt8 × UInt8 × UInt8
  instrumentId : UInt32
  exchangeTsNs : UInt64
  bidPrice : Int64
  askPrice : Int64
  bidQty : Int64
  askQty : Int64
  deriving DecidableEq

namespace WireBBO

/-- The struct as bytes. -/
def bytes (w : WireBBO) : List UInt8 :=
  bytesU32 w.magic ++ [w.msgType, w.pad.1, w.pad.2.1, w.pad.2.2] ++ bytesU32 w.instrumentId ++
    bytesU64 w.exchangeTsNs ++ bytesI64 w.bidPrice ++ bytesI64 w.askPrice ++ bytesI64 w.bidQty ++
    bytesI64 w.askQty

/-- The struct with these bytes. -/
def ofBytes (bytes : List UInt8) : WireBBO where
  magic := readU32 bytes 0
  msgType := readU8 bytes 4
  pad := (readU8 bytes 5, readU8 bytes 6, readU8 bytes 7)
  instrumentId := readU32 bytes 8
  exchangeTsNs := readU64 bytes 12
  bidPrice := readI64 bytes 20
  askPrice := readI64 bytes 28
  bidQty := readI64 bytes 36
  askQty := readI64 bytes 44

@[simp] lemma length_bytes (w : WireBBO) : w.bytes.length = sizeofWireBBO := by
  simp [bytes, sizeofWireBBO]

/-- A quote is read as it was written. -/
lemma ofBytes_bytes (w : WireBBO) : ofBytes w.bytes = w := by
  obtain ⟨magic, msgType, ⟨pad₀, pad₁, pad₂⟩, instrumentId, exchangeTsNs, bidPrice, askPrice,
    bidQty, askQty⟩ := w
  simp only [ofBytes, mk.injEq, Prod.mk.injEq]
  refine ⟨?_, ?_, ⟨?_, ?_, ?_⟩, ?_, ?_, ?_, ?_, ?_, ?_⟩
  · exact ofNat_decode_bytesU32 magic
  · exact ofNat_decode_singleton msgType
  · exact ofNat_decode_singleton pad₀
  · exact ofNat_decode_singleton pad₁
  · exact ofNat_decode_singleton pad₂
  · exact ofNat_decode_bytesU32 instrumentId
  · exact ofNat_decode_bytesU64 exchangeTsNs
  · exact toInt64_decode_bytesI64 bidPrice
  · exact toInt64_decode_bytesI64 askPrice
  · exact toInt64_decode_bytesI64 bidQty
  · exact toInt64_decode_bytesI64 askQty

/-- The event that the fields make. -/
def event (w : WireBBO) : BBOEvent where
  exchangeTsNs := w.exchangeTsNs.toNat
  localTsNs := w.exchangeTsNs.toNat
  instrumentId := w.instrumentId.toNat
  type := if w.msgType = wireTrade then .trade else .bboUpdate
  bidPx := w.bidPrice.toInt
  askPx := w.askPrice.toInt
  bidQty := w.bidQty.toInt
  askQty := w.askQty.toInt

/-- The event `e` has the fields of the message, and `localTs` as the time of its arrival. -/
structure DecodedAs (w : WireBBO) (localTs : ℕ) (e : BBOEvent) : Prop where
  exchangeTsNs : e.exchangeTsNs = w.exchangeTsNs.toNat
  localTsNs : e.localTsNs = localTs
  instrumentId : e.instrumentId = w.instrumentId.toNat
  type : e.type = if w.msgType = wireTrade then .trade else .bboUpdate
  bidPx : e.bidPx = w.bidPrice.toInt
  askPx : e.askPx = w.askPrice.toInt
  bidQty : e.bidQty = w.bidQty.toInt
  askQty : e.askQty = w.askQty.toInt

/-- Each field of the message is in the event; the time of arrival is still that of the exchange. -/
lemma decodedAs_event (w : WireBBO) : w.DecodedAs w.exchangeTsNs.toNat w.event :=
  ⟨rfl, rfl, rfl, rfl, rfl, rfl, rfl, rfl⟩

end WireBBO

/-! ## Depth updates -/

/-- `WireDepthLevel`. -/
structure WireDepthLevel where
  price : Int64
  qty : Int64
  deriving DecidableEq

namespace WireDepthLevel

/-- The struct as bytes. -/
def bytes (l : WireDepthLevel) : List UInt8 :=
  bytesI64 l.price ++ bytesI64 l.qty

/-- The struct at an offset. -/
def ofBytes (bytes : List UInt8) (offset : ℕ) : WireDepthLevel where
  price := readI64 bytes offset
  qty := readI64 bytes (offset + 8)

@[simp] lemma length_bytes (l : WireDepthLevel) : l.bytes.length = sizeofWireDepthLevel := by
  simp [bytes, sizeofWireDepthLevel]

/-- A level among others is read as it was written. -/
lemma ofBytes_flatMap (before after : List UInt8) {levels : List WireDepthLevel} {i : ℕ}
    (hi : i < levels.length) :
    ofBytes (before ++ (levels.flatMap bytes ++ after)) (before.length + 16 * i) = levels[i] := by
  have hdrop : (before ++ (levels.flatMap bytes ++ after)).drop (before.length + 16 * i) =
      bytesI64 levels[i].price ++ (bytesI64 levels[i].qty ++
        ((levels.drop (i + 1)).flatMap bytes ++ after)) := by
    have hfit : 16 * i ≤ (levels.flatMap bytes).length := by
      rw [Framing.length_flatMap length_bytes]
      exact Nat.mul_le_mul_left 16 hi.le
    have hskip : (levels.flatMap bytes).drop (16 * i) = (levels.drop i).flatMap bytes :=
      Framing.drop_flatMap length_bytes levels i
    rw [← List.drop_drop, List.drop_left, List.drop_append_of_le_length hfit, hskip,
      List.drop_eq_getElem_cons hi, List.flatMap_cons, bytes, List.append_assoc, List.append_assoc]
  have hprice : wireField (before ++ (levels.flatMap bytes ++ after)) (before.length + 16 * i) 8 =
      bytesI64 levels[i].price := by
    rw [wireField, hdrop, List.take_left' (length_bytesI64 _)]
  have hqty : wireField (before ++ (levels.flatMap bytes ++ after)) (before.length + 16 * i + 8) 8 =
      bytesI64 levels[i].qty := by
    rw [wireField, ← List.drop_drop, hdrop, List.drop_left' (length_bytesI64 _),
      List.take_left' (length_bytesI64 _)]
  rw [ofBytes, readI64, readI64, readU64, readU64, hprice, hqty, toInt64_decode_bytesI64,
    toInt64_decode_bytesI64]

/-- The level that the fields make. -/
def level (l : WireDepthLevel) : PriceLevel :=
  ⟨l.price.toInt, l.qty.toInt⟩

/-- The price and the quantity of the level are those of the message. -/
lemma level_eq (l : WireDepthLevel) : l.level = { price := l.price.toInt, qty := l.qty.toInt } :=
  rfl

end WireDepthLevel

/-- `WireDepth`: the counts say how many of the levels are meant. -/
structure WireDepth where
  magic : UInt32
  msgType : UInt8
  bidLevels : UInt8
  askLevels : UInt8
  pad : UInt8
  instrumentId : UInt32
  exchangeTsNs : UInt64
  bids : Vector WireDepthLevel marketDepth
  asks : Vector WireDepthLevel marketDepth
  deriving DecidableEq

namespace WireDepth

/-- The struct as bytes. -/
def bytes (w : WireDepth) : List UInt8 :=
  bytesU32 w.magic ++ [w.msgType, w.bidLevels, w.askLevels, w.pad] ++ bytesU32 w.instrumentId ++
    bytesU64 w.exchangeTsNs ++ w.bids.toList.flatMap WireDepthLevel.bytes ++
    w.asks.toList.flatMap WireDepthLevel.bytes

/-- The struct with these bytes. -/
def ofBytes (bytes : List UInt8) : WireDepth where
  magic := readU32 bytes 0
  msgType := readU8 bytes 4
  bidLevels := readU8 bytes 5
  askLevels := readU8 bytes 6
  pad := readU8 bytes 7
  instrumentId := readU32 bytes 8
  exchangeTsNs := readU64 bytes 12
  bids := Vector.ofFn fun i => .ofBytes bytes (20 + 16 * i)
  asks := Vector.ofFn fun i => .ofBytes bytes (100 + 16 * i)

@[simp] lemma length_bytes (w : WireDepth) : w.bytes.length = sizeofWireDepth := by
  have hbids : w.bids.toList.length = 5 := w.bids.size_toArray
  have hasks : w.asks.toList.length = 5 := w.asks.size_toArray
  simp [bytes, List.length_flatMap, sizeofWireDepth, sizeofWireDepthLevel, hbids, hasks]

/-- A side is read as it was written, whatever stands before and behind it. -/
lemma ofFn_ofBytes (before after : List UInt8) (levels : Vector WireDepthLevel marketDepth) :
    (Vector.ofFn fun i : Fin marketDepth => WireDepthLevel.ofBytes
      (before ++ levels.toList.flatMap WireDepthLevel.bytes ++ after) (before.length + 16 * i)) =
      levels := by
  apply Vector.ext
  intro i hi
  have hlength : i < levels.toList.length := by rwa [Vector.length_toList]
  have hlevel : levels.toList[i] = levels[i] := Vector.getElem_toList hlength
  rw [Vector.getElem_ofFn, List.append_assoc, ← hlevel]
  exact WireDepthLevel.ofBytes_flatMap before after hlength

/-- A depth update is read as it was written. -/
lemma ofBytes_bytes (w : WireDepth) : ofBytes w.bytes = w := by
  obtain ⟨magic, msgType, bidLevels, askLevels, pad, instrumentId, exchangeTsNs, bids, asks⟩ := w
  simp only [ofBytes, mk.injEq]
  refine ⟨?_, ?_, ?_, ?_, ?_, ?_, ?_, ?_, ?_⟩
  · exact ofNat_decode_bytesU32 magic
  · exact ofNat_decode_singleton msgType
  · exact ofNat_decode_singleton bidLevels
  · exact ofNat_decode_singleton askLevels
  · exact ofNat_decode_singleton pad
  · exact ofNat_decode_bytesU32 instrumentId
  · exact ofNat_decode_bytesU64 exchangeTsNs
  · exact ofFn_ofBytes (bytesU32 magic ++ [msgType, bidLevels, askLevels, pad] ++
      bytesU32 instrumentId ++ bytesU64 exchangeTsNs) _ bids
  · have hbefore : (bytesU32 magic ++ [msgType, bidLevels, askLevels, pad] ++
        bytesU32 instrumentId ++ bytesU64 exchangeTsNs ++
        bids.toList.flatMap WireDepthLevel.bytes).length = 100 := by
      have hbids : bids.toList.length = 5 := bids.size_toArray
      simp [List.length_flatMap, sizeofWireDepthLevel, hbids]
    have hread := ofFn_ofBytes (bytesU32 magic ++ [msgType, bidLevels, askLevels, pad] ++
      bytesU32 instrumentId ++ bytesU64 exchangeTsNs ++
      bids.toList.flatMap WireDepthLevel.bytes) [] asks
    rwa [hbefore, List.append_nil] at hread

end WireDepth

/-! ## Messages -/

/-- A message of the feed. -/
inductive WireMsg where
  | bbo (w : WireBBO)
  | depth (w : WireDepth)
  deriving DecidableEq

namespace WireMsg

def bytes : WireMsg → List UInt8
  | bbo w => w.bytes
  | depth w => w.bytes

/-- The field `msg_type`. -/
def msgType : WireMsg → UInt8
  | bbo w => w.msgType
  | depth w => w.msgType

def isDepth : WireMsg → Bool
  | bbo _ => false
  | depth _ => true

/-- The magic number is right, and the type is one of the struct's. -/
def WellFormed : WireMsg → Prop
  | bbo w => w.magic = wireMagic ∧ (w.msgType = wireBbo ∨ w.msgType = wireTrade)
  | depth w => w.magic = wireMagic ∧ w.msgType = wireDepth

instance : DecidablePred WellFormed
  | bbo _ => inferInstanceAs (Decidable (_ ∧ (_ ∨ _)))
  | depth _ => inferInstanceAs (Decidable (_ ∧ _))

/-- The event of a quote or a trade. -/
def event : WireMsg → Option BBOEvent
  | bbo w => some w.event
  | depth _ => none

/-- The quotes and trades among the messages. -/
def quotesAndTrades (msgs : List WireMsg) : List WireBBO :=
  msgs.filterMap fun
    | bbo w => some w
    | depth _ => none

lemma filterMap_event (msgs : List WireMsg) :
    msgs.filterMap event = (quotesAndTrades msgs).map WireBBO.event := by
  rw [quotesAndTrades, List.map_filterMap]
  refine List.filterMap_congr fun m _ => ?_
  cases m <;> rfl

/-- The bytes of a packet with these messages. -/
def payload (msgs : List WireMsg) : List UInt8 :=
  msgs.flatMap bytes

lemma length_bytes (m : WireMsg) :
    m.bytes.length = if m.isDepth then sizeofWireDepth else sizeofWireBBO := by
  cases m with
  | bbo w => exact w.length_bytes
  | depth w => exact w.length_bytes

lemma sizeofWireBBO_le_length (m : WireMsg) : sizeofWireBBO ≤ m.bytes.length := by
  rw [length_bytes]
  split_ifs
  · decide
  · exact le_rfl

/-- The type is the fifth byte. -/
lemma getElem?_bytes_four (m : WireMsg) : m.bytes[4]? = some m.msgType := by
  cases m with
  | bbo w => rfl
  | depth w => rfl

/-- A packet has room for as many messages as the shortest of them fit into it. -/
lemma length_mul_le_payload (msgs : List WireMsg) :
    sizeofWireBBO * msgs.length ≤ (payload msgs).length := by
  induction msgs with
  | nil => exact le_rfl
  | cons m msgs ih =>
    have hfirst := m.sizeofWireBBO_le_length
    have hpayload : (payload (m :: msgs)).length = m.bytes.length + (payload msgs).length := by
      rw [payload, List.flatMap_cons, List.length_append, payload]
    rw [hpayload, List.length_cons, Nat.mul_succ]
    omega

end WireMsg

end QuantTrade
