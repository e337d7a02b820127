import QuantTrade.Library.LittleEndian
import QuantTrade.Oms.Order

/-!
# Messages of the binary protocol

The packed structs of `src/connectivity/binary_protocol.hpp` as bytes, all fields little-endian.  A
message is a header of 8 bytes and a body; the header has the length of the body and the sum of its
own first 6 bytes.
-/

namespace QuantTrade

namespace BinaryProtocolGateway

open LittleEndian (encode decode encodeInt decodeInt)

/-- `MAGIC`: the letters "HF". -/
def magicNumber : UInt16 := 0x4846

/-- `VERSION`. -/
def versionNumber : UInt8 := 0x01

/-! ## Types of messages -/

def msgNewOrder : UInt8 := 0x01
def msgCancel : UInt8 := 0x02
def msgModify : UInt8 := 0x03
def msgOrderAck : UInt8 := 0x11
def msgOrderFill : UInt8 := 0x12
def msgHeartbeat : UInt8 := 0x20

/-! ## The header -/

/-- The header of a message. -/
structure MsgHeader where
  magic : UInt16
  version : UInt8
  msgType : UInt8
  bodyLen : UInt16
  checksum : UInt16
  deriving DecidableEq, Repr

/-- The field of a packed struct at an offset. -/
def field (bytes : List UInt8) (offset size : ℕ) : List UInt8 :=
  (bytes.drop offset).take size

/-- The bytes of a header. -/
def MsgHeader.bytes (h : MsgHeader) : List UInt8 :=
  encode 2 h.magic.toNat ++ [h.version, h.msgType] ++ encode 2 h.bodyLen.toNat ++
    encode 2 h.checksum.toNat

/-- The header with these bytes. -/
def MsgHeader.ofBytes (bytes : List UInt8) : MsgHeader where
  magic := UInt16.ofNat (decode (field bytes 0 2))
  version := UInt8.ofNat (decode (field bytes 2 1))
  msgType := UInt8.ofNat (decode (field bytes 3 1))
  bodyLen := UInt16.ofNat (decode (field bytes 4 2))
  checksum := UInt16.ofNat (decode (field bytes 6 2))

@[simp] lemma MsgHeader.length_bytes (h : MsgHeader) : h.bytes.length = 8 := by
  simp [bytes]

/-- A header is read as it was written. -/
lemma MsgHeader.ofBytes_bytes (h : MsgHeader) : ofBytes h.bytes = h := by
  have hword : ∀ x : UInt16, UInt16.ofNat (decode (encode 2 x.toNat)) = x := by
    intro x
    rw [LittleEndian.decode_encode_of_lt (show x.toNat < 256 ^ 2 from x.toNat_lt),
      UInt16.ofNat_toNat]
  have hbyte : ∀ b : UInt8, UInt8.ofNat (decode [b]) = b := by
    intro b
    simp [decode]
  obtain ⟨magic, version, msgType, bodyLen, checksum⟩ := h
  simp only [ofBytes, mk.injEq]
  refine ⟨?_, ?_, ?_, ?_, ?_⟩
  · exact hword magic
  · exact hbyte version
  · exact hbyte msgType
  · exact hword bodyLen
  · exact hword checksum

/-- `calc_checksum`: the sum of the first 6 bytes. -/
def calcChecksum (h : MsgHeader) : UInt16 :=
  (h.bytes.take 6).foldl (fun sum b => sum + b.toUInt16) 0

/-- The header that `send_msg` builds. -/
def sendHeader (msgType : UInt8) (bodyLen : UInt16) : MsgHeader :=
  let h : MsgHeader :=
    { magic := magicNumber
      version := versionNumber
      msgType := msgType
      bodyLen := bodyLen
      checksum := 0 }
  { h with checksum := calcChecksum h }

/-! ## The bodies -/

/-- A new order. -/
structure NewOrderBody where
  clientOrderId : ℕ
  instrumentId : ℕ
  side : UInt8
  orderType : UInt8
  price : ℤ
  qty : ℤ
  timestampNs : ℕ

def NewOrderBody.bytes (b : NewOrderBody) : List UInt8 :=
  encode 8 b.clientOrderId ++ encode 4 b.instrumentId ++ [b.side, b.orderType] ++ [0, 0] ++
    encodeInt 8 b.price ++ encodeInt 8 b.qty ++ encode 8 b.timestampNs

/-- A cancel; the exchange's id and the instrument may be left 0. -/
structure CancelBody where
  clientOrderId : ℕ
  exchangeOrderId : ℕ := 0
  instrumentId : ℕ := 0

def CancelBody.bytes (b : CancelBody) : List UInt8 :=
  encode 8 b.clientOrderId ++ encode 8 b.exchangeOrderId ++ encode 4 b.instrumentId ++ [0, 0, 0, 0]

/-- A change of an order. -/
structure ModifyBody where
  clientOrderId : ℕ
  newPrice : ℤ
  newQty : ℤ

def ModifyBody.bytes (b : ModifyBody) : List UInt8 :=
  encode 8 b.clientOrderId ++ encodeInt 8 b.newPrice ++ encodeInt 8 b.newQty

/-- The exchange's answer to an order. -/
structure AckBody where
  clientOrderId : ℕ
  exchangeOrderId : ℕ
  status : UInt8
  timestampNs : ℕ

/-- The size of an `AckBody`. -/
def ackBodySize : ℕ := 32

def AckBody.ofBytes (bytes : List UInt8) : AckBody where
  clientOrderId := decode (field bytes 0 8)
  exchangeOrderId := decode (field bytes 8 8)
  status := UInt8.ofNat (decode (field bytes 16 1))
  timestampNs := decode (field bytes 24 8)

/-- An execution. -/
structure FillBody where
  clientOrderId : ℕ
  exchangeOrderId : ℕ
  instrumentId : ℕ
  side : UInt8
  fillPrice : ℤ
  fillQty : ℤ
  remainingQty : ℤ
  timestampNs : ℕ

/-- The size of a `FillBody`. -/
def fillBodySize : ℕ := 56

def FillBody.ofBytes (bytes : List UInt8) : FillBody where
  clientOrderId := decode (field bytes 0 8)
  exchangeOrderId := decode (field bytes 8 8)
  instrumentId := decode (field bytes 16 4)
  side := UInt8.ofNat (decode (field bytes 20 1))
  fillPrice := decodeInt (field bytes 24 8)
  fillQty := decodeInt (field bytes 32 8)
  remainingQty := decodeInt (field bytes 40 8)
  timestampNs := decode (field bytes 48 8)

/-! ## What is sent -/

/-- The body that `send_new_order` builds; `now` is the time stamp counter. -/
def newOrderBody (req : OrderRequest) (now : ℕ) : NewOrderBody where
  clientOrderId := req.strategyTsNs
  instrumentId := req.instrumentId
  side := req.side.code
  orderType := req.type.code
  price := req.price
  qty := req.qty
  timestampNs := now

/-- The body that `send_modify` builds. -/
def modifyBody (req : ModifyRequest) : ModifyBody where
  clientOrderId := req.clientOrderId
  newPrice := req.newPrice
  newQty := req.newQty

/-- The type and the body that a call passes to `send_msg`. -/
structure Message where
  msgType : UInt8
  body : List UInt8
  deriving DecidableEq, Repr

/-- `send_new_order`. -/
def newOrderMessage (req : OrderRequest) (now : ℕ) : Message where
  msgType := msgNewOrder
  body := (newOrderBody req now).bytes

/-- `send_cancel`. -/
def cancelMessage (clientOrderId : ℕ) : Message where
  msgType := msgCancel
  body := CancelBody.bytes { clientOrderId := clientOrderId }

/-- `send_modify`. -/
def modifyMessage (req : ModifyRequest) : Message where
  msgType := msgModify
  body := (modifyBody req).bytes

/-- The header of a message. -/
def Message.header (m : Message) : List UInt8 :=
  (sendHeader m.msgType (UInt16.ofNat m.body.length)).bytes

/-- A message on the wire. -/
def Message.bytes (m : Message) : List UInt8 :=
  m.header ++ m.body

end BinaryProtocolGateway

end QuantTrade
