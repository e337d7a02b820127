import QuantTrade.Connectivity.FixEncode

/-!
# The framing of outgoing FIX messages

A FIX message announces its length: the value of tag 9 is the number of bytes between the field of
tag 9 and the field of tag 10, which holds the checksum of everything before it.  `WellFramed` says
so of a sequence of bytes.  The six encoders of `FIXSession` write a header, the fields of the
message and the checksum (`OutMessage.encode_of_room`).  The checksum is right, but the placeholder
in tag 9 stays what it is, so no message is well framed (`framing_encode`).
-/

namespace QuantTrade

/-! ## Well-framed messages -/

/-- The message ends with a checksum of what is before it. -/
def HasChecksum (message : List UInt8) : Prop :=
  ∃ before, message = before ++ fieldText (10, checksumDigits before)

/-- The message consists of `BeginString`, a `BodyLength` that is the length of the body, the body,
and the checksum. -/
def WellFramed (message : List UInt8) : Prop :=
  ∃ begin value body, soh ∉ begin ∧ soh ∉ value ∧
    message = fieldText (8, begin) ++ fieldText (9, value) ++ body ++
      fieldText (10, checksumDigits (fieldText (8, begin) ++ fieldText (9, value) ++ body)) ∧
    readDecimal value = body.length

lemma length_checksumDigits_eq (bytes : List UInt8) : (checksumDigits bytes).length = 3 := by
  have hlt := Nat.mod_lt (bytes.map UInt8.toNat).sum (show 0 < 256 by decide)
  have hdigit {n : ℕ} (hn : n < 10) : (decimal n).length = 1 :=
    le_antisymm (length_decimal_le (by decide) (by omega)) (length_decimal_pos n)
  unfold checksumDigits
  dsimp only
  rw [List.length_append, List.length_append, hdigit (by omega), hdigit (by omega),
    hdigit (by omega)]

/-- What is in front of the checksum can be told from its length. -/
lemma append_checksum_inj {before before' : List UInt8}
    (h : before ++ fieldText (10, checksumDigits before) =
      before' ++ fieldText (10, checksumDigits before')) : before = before' := by
  apply List.append_inj_left' h
  rw [length_fieldText, length_fieldText, length_checksumDigits_eq, length_checksumDigits_eq]

/-- The first field of some bytes can be told from its separator. -/
lemma fieldText_append_inj {tag : ℕ} {value value' rest rest' : List UInt8}
    (hvalue : soh ∉ value) (hvalue' : soh ∉ value')
    (h : fieldText (tag, value) ++ rest = fieldText (tag, value') ++ rest') :
    value = value' ∧ rest = rest' := by
  have hbytes : value ++ soh :: rest = value' ++ soh :: rest' := by
    simpa [fieldText] using h
  have hsplit := congrArg (List.splitOn soh) hbytes
  rw [List.splitOn_append_cons_self_of_not_mem hvalue,
    List.splitOn_append_cons_self_of_not_mem hvalue'] at hsplit
  obtain rfl := (List.cons.inj hsplit).1
  exact ⟨rfl, (List.cons.inj (List.append_cancel_left hbytes)).2⟩

lemma hasChecksum_messageText (fields : List (ℕ × List UInt8)) :
    HasChecksum (messageText fields) :=
  ⟨text fields, messageText_eq fields⟩

/-- A message of fields is well framed exactly when the value of its second field is the length of
those behind it. -/
theorem wellFramed_messageText_iff {begin value : List UInt8} {fields : List (ℕ × List UInt8)}
    (hbegin : soh ∉ begin) (hvalue : soh ∉ value) :
    WellFramed (messageText ((8, begin) :: (9, value) :: fields)) ↔
      readDecimal value = (text fields).length := by
  have htext : text ((8, begin) :: (9, value) :: fields) =
      fieldText (8, begin) ++ (fieldText (9, value) ++ text fields) := rfl
  rw [messageText_eq, htext]
  constructor
  · rintro ⟨begin', value', body, hbegin', hvalue', heq, hlength⟩
    have hfields := append_checksum_inj heq
    rw [List.append_assoc] at hfields
    obtain ⟨rfl, hrest⟩ := fieldText_append_inj hbegin hbegin' hfields
    obtain ⟨rfl, rfl⟩ := fieldText_append_inj hvalue hvalue' hrest
    exact hlength
  · intro hlength
    refine ⟨begin, value, text fields, hbegin, hvalue, ?_, hlength⟩
    rw [← List.append_assoc (fieldText (8, begin))]

/-! ## The encoders -/

/-- The messages that a session encodes. -/
inductive OutMessage where
  | logon
  | logout
  | heartbeat (testReqId : Option (List UInt8))
  | newOrder (req : OrderRequest)
  | cancel (origCloid : ℕ)
  | modify (req : ModifyRequest)

namespace OutMessage

/-- The bytes that the encoder of a message produces. -/
def encode (s : FIXSender) (cap : ℕ) : OutMessage → List UInt8
  | logon => s.encodeLogon cap
  | logout => s.encodeLogout cap
  | heartbeat testReqId => s.encodeHeartbeat cap testReqId
  | newOrder req => s.encodeNewOrder cap req
  | cancel origCloid => s.encodeCancel cap origCloid
  | modify req => s.encodeModify cap req

/-- The value of tag 35. -/
def msgType : OutMessage → Char
  | logon => 'A'
  | logout => '5'
  | heartbeat _ => '0'
  | newOrder _ => 'D'
  | cancel _ => 'F'
  | modify _ => 'G'

/-- The fields behind the header. -/
def fields : OutMessage → List (ℕ × List UInt8)
  | logon => [(98, decimal 0), (108, decimal heartbeatIntervalS)]
  | logout => []
  | heartbeat none => []
  | heartbeat (some testReqId) => [(112, testReqId)]
  | newOrder req => FIXSender.newOrderFields req
  | cancel origCloid => FIXSender.cancelFields origCloid
  | modify req => FIXSender.modifyFields req

/-- The whole message, however long it is. -/
def full (m : OutMessage) (s : FIXSender) : List UInt8 :=
  messageText (s.headerFields m.msgType ++ m.fields)

variable {s : FIXSender} {cap : ℕ} {m : OutMessage}

lemma encode_eq : m.encode s cap =
    finalize cap (appendFields cap (s.writeHeader cap m.msgType) m.fields) := by
  cases m with
  | logon =>
    have hzero := decimalInt_natCast (n := 0) (by decide)
    have hinterval := decimalInt_natCast (n := heartbeatIntervalS) (by decide)
    rw [Nat.cast_zero] at hzero
    simp only [encode, FIXSender.encodeLogon, fields, msgType, appendFields, List.foldl_cons,
      List.foldl_nil, fixAppendField_eq, hzero, hinterval]
  | logout => rfl
  | heartbeat testReqId => cases testReqId <;> rfl
  | newOrder req => exact FIXSender.encodeNewOrder_eq req
  | cancel origCloid => rfl
  | modify req => exact FIXSender.encodeModify_eq req

lemma tag_lt : ∀ f ∈ m.fields, f.1 < 2 ^ 63 := by
  cases m with
  | logon => simp [fields]
  | logout => simp [fields]
  | heartbeat testReqId => cases testReqId <;> simp [fields]
  | newOrder req =>
    unfold fields FIXSender.newOrderFields
    by_cases hmarket : req.type = .market <;> simp [hmarket]
  | cancel origCloid => simp [fields, FIXSender.cancelFields]
  | modify req => simp [fields, FIXSender.modifyFields]

/-- A message that fits its buffer is encoded in full. -/
theorem encode_of_room (h : (m.full s).length ≤ cap) : m.encode s cap = m.full s := by
  rw [encode_eq, FIXSender.finalize_appendFields tag_lt h, full]

/-- The size of the buffer that a message is encoded into; nothing sends heartbeats. -/
def buffer : OutMessage → Option ℕ
  | logon => some 512
  | logout => some 256
  | heartbeat _ => none
  | newOrder _ => some 512
  | cancel _ => some 256
  | modify _ => some 512

/-- With names that leave room, no message is cut short. -/
theorem encode_of_wellNamed (hs : s.WellNamed) (hbuffer : m.buffer = some cap) :
    m.encode s cap = m.full s := by
  cases m with
  | logon =>
    obtain rfl := Option.some.inj hbuffer
    exact encode_of_room ((FIXSender.length_messageText_le_text hs).trans (by decide))
  | logout =>
    obtain rfl := Option.some.inj hbuffer
    exact encode_of_room ((FIXSender.length_messageText_le_text hs).trans (by decide))
  | heartbeat _ => cases hbuffer
  | newOrder req =>
    obtain rfl := Option.some.inj hbuffer
    exact FIXSender.encodeNewOrder_of_wellNamed hs req
  | cancel origCloid =>
    obtain rfl := Option.some.inj hbuffer
    exact FIXSender.encodeCancel_of_wellNamed hs origCloid
  | modify req =>
    obtain rfl := Option.some.inj hbuffer
    exact FIXSender.encodeModify_of_wellNamed hs req

lemma soh_not_mem_fields (hbuffer : m.buffer = some cap) : ∀ f ∈ m.fields, soh ∉ f.2 := by
  cases m with
  | logon =>
    have hnum := soh_not_mem_decimal
    simp only [fields, List.forall_mem_cons]
    exact ⟨hnum _, hnum _, by simp⟩
  | logout => simp [fields]
  | heartbeat _ => cases hbuffer
  | newOrder req => exact FIXSender.soh_not_mem_newOrderFields req
  | cancel origCloid => exact FIXSender.soh_not_mem_cancelFields origCloid
  | modify req => exact FIXSender.soh_not_mem_modifyFields req

/-- The value of tag 34 is the number of the message. -/
theorem fixValue_msgSeqNum (hs : s.WellNamed) (hbuffer : m.buffer = some cap) :
    fixValue (m.encode s cap) 34 = some (decimal s.msgSeqNum) := by
  have hseq : decimalInt ((s.msgSeqNum : ℤ).bmod (2 ^ 64)) = decimal s.msgSeqNum :=
    decimalInt_natCast (hs.seq.trans (by decide))
  have htype : m.msgType.toUInt8 ≠ soh := by
    cases m <;> simp only [msgType] <;> decide
  rw [encode_of_wellNamed hs hbuffer, full, fixValue_messageText _ (by decide),
    FIXSender.headerFields, hseq]
  · rfl
  · exact List.forall_mem_append.mpr
      ⟨FIXSender.soh_not_mem_headerFields hs.sender hs.target htype, soh_not_mem_fields hbuffer⟩

/-- The value of `BodyLength` in a message is not the length of its body. -/
lemma not_wellFramed_full : ¬WellFramed (m.full s) := by
  have hbegin : soh ∉ s.beginString := by
    unfold FIXSender.beginString
    cases s.version <;> decide
  unfold full FIXSender.headerFields
  rw [List.cons_append, List.cons_append,
    wellFramed_messageText_iff hbegin (by decide)]
  have hzero : readDecimal (0 :: ascii ['0', '0', '0', '0', '0']) = 0 := by decide
  rw [hzero, List.cons_append, text, List.flatMap_cons, List.length_append, length_fieldText]
  omega

/-- **Framing of outgoing messages.**  Every message that fits its buffer ends with the right
checksum, and none is well framed: the value of tag 9 is a placeholder that reads as zero, and no
body is empty. -/
theorem framing_encode (s : FIXSender) (m : OutMessage) (cap : ℕ) (h : (m.full s).length ≤ cap) :
    HasChecksum (m.encode s cap) ∧ ¬WellFramed (m.encode s cap) := by
  rw [encode_of_room h]
  exact ⟨hasChecksum_messageText _, not_wellFramed_full⟩

/-- The sides of a session and a logout. -/
def exampleSession : FIXSender where
  senderComp := ascii ['C']
  targetComp := ascii ['B']

theorem framing_encode_logout : HasChecksum (logout.encode exampleSession 256) :=
  (framing_encode exampleSession logout 256 (by decide)).1

/-- In a logout the value of tag 9 is a null byte and five zeros; the body has 20 bytes. -/
theorem framing_logout_length :
    fixValue (logout.encode exampleSession 256) 9 = some (0 :: ascii ['0', '0', '0', '0', '0']) ∧
      readDecimal (0 :: ascii ['0', '0', '0', '0', '0']) = 0 ∧
      ¬WellFramed (logout.encode exampleSession 256) := by
  have hroom : (logout.full exampleSession).length ≤ 256 := by decide
  refine ⟨by decide, by decide, ?_⟩
  rw [encode_of_room hroom]
  exact not_wellFramed_full

end OutMessage

end QuantTrade
