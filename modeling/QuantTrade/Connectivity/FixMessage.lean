import Mathlib.Algebra.Group.Int.Defs
import Mathlib.Algebra.Group.Nat.Defs
import Mathlib.Data.List.Basic
import QuantTrade.Oms.Order

/-!
# FIX messages

The parsing half of `FIXSession` in `src/connectivity/fix_session.cpp`.  `parse_message` gets a
pointer into the receive buffer and a length, looks up the fields it needs by their tags, and
reports an execution through one of the two callbacks.  A field is found by the separator in front
of its tag, so nothing is found in bytes with no separator but the last (`parseMessage_of_single`).
-/

namespace QuantTrade

/-- The field separator. -/
def soh : UInt8 := 0x01

/-- The codes of characters. -/
def ascii (chars : List Char) : List UInt8 :=
  chars.map Char.toUInt8

/-- The size of the receive buffer. -/
def rbufSize : ℕ := 65536

/-- The bytes of the receive buffer by their index.  Indices outside of the buffer stand for the
memory around it. -/
abbrev Memory := ℕ → UInt8

/-- The session states. -/
inductive SessionState where
  | notConnected
  | loggingOn
  | active
  | loggingOut
  deriving DecidableEq, Repr

/-- A call of one of the callbacks. -/
inductive Report where
  | ack (ack : OrderAck)
  | fill (fill : FillEvent)
  deriving DecidableEq, Repr

/-- The session: its state, the times of the heartbeats, which callbacks are registered and the
calls they got, and the time stamp counter with the number of times it was read. -/
structure FIXSession where
  state : SessionState
  lastRttNs : ℕ
  lastHeartbeatTsNs : ℕ
  ackCb : Bool
  fillCb : Bool
  reports : List Report
  rdtscNs : ℕ → ℕ
  rdtscReads : ℕ

/-- What `fix_find_field` looks for: a separator, the tag and an equals sign.  The tags it is called
with fit its buffer. -/
def fieldPattern (tag : ℕ) : List UInt8 :=
  soh :: (ascii (Nat.toDigits 10 tag) ++ ascii ['='])

/-- `fix_find_field`: where the value of the field begins. -/
def fixFindField (mem : Memory) (buf len tag : ℕ) : Option ℕ :=
  let plen := (fieldPattern tag).length
  ((List.range (len - plen)).find? fun i =>
    (List.range plen).map (fun k => mem (buf + i + k)) = fieldPattern tag).map (buf + · + plen)

/-- The loop of `fix_read_int` in `int64_t`: it stops at a null byte or a separator. -/
def fixReadDigits : List UInt8 → ℤ → ℤ
  | [], result => result
  | b :: bs, result =>
    if b = 0 ∨ b = soh then result
    else fixReadDigits bs ((result * 10 + (b.toNat - 48)).bmod (2 ^ 64))

/-- `fix_read_int`: the loop stops at most the size of the buffer behind the beginning of the
value. -/
def fixReadInt (mem : Memory) : Option ℕ → ℤ
  | none => 0
  | some val =>
    let bytes := (List.range' val rbufSize).map mem
    if mem val = '-'.toUInt8 then (-fixReadDigits bytes.tail 0).bmod (2 ^ 64)
    else fixReadDigits bytes 0

/-- A conversion to an unsigned type of `w` bits. -/
def toUnsigned (w : ℕ) (x : ℤ) : ℕ :=
  (x % 2 ^ w).toNat

namespace FIXSession

/-- `handle_execution_report`. -/
def handleExecutionReport (s : FIXSession) (mem : Memory) (buf len : ℕ) : FIXSession :=
  match fixFindField mem buf len 150 with
  | none => s
  | some execType =>
    let cloid := fixReadInt mem (fixFindField mem buf len 11)
    let exchangeOid := fixReadInt mem (fixFindField mem buf len 37)
    let et := mem execType
    let s' := { s with rdtscReads := s.rdtscReads + 1 }
    if et = '0'.toUInt8 ∨ et = '8'.toUInt8 then
      let ack : OrderAck :=
        { clientOrderId := toUnsigned 64 cloid
          exchangeOrderId := toUnsigned 64 exchangeOid
          status := if et = '0'.toUInt8 then .new else .rejected
          ackTsNs := s.rdtscNs s.rdtscReads }
      if s.ackCb then { s' with reports := s.reports ++ [.ack ack] } else s'
    else if et = '1'.toUInt8 ∨ et = '2'.toUInt8 then
      let fill : FillEvent :=
        { clientOrderId := toUnsigned 64 cloid
          exchangeOrderId := toUnsigned 64 exchangeOid
          instrumentId := toUnsigned 32 (fixReadInt mem (fixFindField mem buf len 55))
          fillPrice := fixReadInt mem (fixFindField mem buf len 31)
          fillQty := fixReadInt mem (fixFindField mem buf len 32)
          remainingQty := fixReadInt mem (fixFindField mem buf len 151)
          fillTsNs := s.rdtscNs s.rdtscReads
          side := if fixReadInt mem (fixFindField mem buf len 54) = 1 then .buy else .sell }
      if s.fillCb then { s' with reports := s.reports ++ [.fill fill] } else s'
    else s

/-- `handle_heartbeat`. -/
def handleHeartbeat (s : FIXSession) : FIXSession :=
  let now := s.rdtscNs s.rdtscReads
  let last := s.lastHeartbeatTsNs
  { s with
    rdtscReads := s.rdtscReads + 1
    lastHeartbeatTsNs := now
    lastRttNs := if last > 0 then toUnsigned 64 (now - last) else s.lastRttNs }

/-- `parse_message`. -/
def parseMessage (s : FIXSession) (mem : Memory) (buf len : ℕ) : FIXSession :=
  match fixFindField mem buf len 35 with
  | none => s
  | some msgTypePtr =>
    let msgType := mem msgTypePtr
    if msgType = '8'.toUInt8 then s.handleExecutionReport mem buf len
    else if msgType = '0'.toUInt8 then s.handleHeartbeat
    else if msgType = 'A'.toUInt8 then { s with state := .active }
    else if msgType = '5'.toUInt8 then { s with state := .notConnected }
    else s

end FIXSession

/-- No field is found in bytes with no separator but the last. -/
lemma fixFindField_of_single {mem : Memory} {buf len : ℕ}
    (h : ∀ k, k + 1 < len → mem (buf + k) ≠ soh) (tag : ℕ) :
    fixFindField mem buf len tag = none := by
  have hnone : (List.range (len - (fieldPattern tag).length)).find? (fun i =>
      (List.range (fieldPattern tag).length).map (fun k => mem (buf + i + k)) =
        fieldPattern tag) = none := by
    rw [List.find?_eq_none]
    intro i hi heq
    have hlen : (fieldPattern tag).length = (ascii (Nat.toDigits 10 tag)).length + 2 := by
      simp [fieldPattern, ascii]
    have hi' := List.mem_range.mp hi
    -- the first byte of a match is a separator
    have hhead := congrArg List.head? (of_decide_eq_true heq)
    rw [hlen, List.range_succ_eq_map] at hhead
    simp only [fieldPattern, List.map_cons, List.head?_cons, Option.some.injEq] at hhead
    exact h i (by omega) hhead
  simp only [fixFindField, hnone, Option.map_none]

/-- Bytes with no separator but the last are not understood. -/
theorem FIXSession.parseMessage_of_single (s : FIXSession) {mem : Memory} {buf len : ℕ}
    (h : ∀ k, k + 1 < len → mem (buf + k) ≠ soh) : s.parseMessage mem buf len = s := by
  simp only [parseMessage, fixFindField_of_single h]

/-! ## Well-formed messages -/

/-- An ASCII digit. -/
def isDigit (b : UInt8) : Bool :=
  '0'.toUInt8 ≤ b && b ≤ '9'.toUInt8

/-- A field `TAG=VALUE`: the tag is a number and the value does not contain the separator. -/
structure FixField where
  tag : List UInt8
  value : List UInt8
  tag_ne_nil : tag ≠ []
  tag_digits : tag.all isDigit = true
  value_soh : soh ∉ value

/-- The field with the separator that ends it. -/
def FixField.bytes (f : FixField) : List UInt8 :=
  f.tag ++ ascii ['='] ++ f.value ++ [soh]

/-- A message that is not a Logout: fields, and the three digits of the checksum. -/
structure FixMessage where
  fields : List FixField
  checksum : List UInt8
  checksum_length : checksum.length = 3
  checksum_digits : checksum.all isDigit = true
  not_logout : ∀ f ∈ fields, f.tag = ascii ['3', '5'] → f.value ≠ ascii ['5']

/-- The message on the wire. -/
def FixMessage.bytes (m : FixMessage) : List UInt8 :=
  m.fields.flatMap FixField.bytes ++ (ascii ['1', '0', '='] ++ m.checksum ++ [soh])

end QuantTrade
