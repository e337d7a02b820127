import Mathlib.Data.Nat.Digits.Defs
import QuantTrade.Connectivity.FixMessage

/-!
# Encoding FIX messages

The encoding half of `FIXSession` in `src/connectivity/fix_session.cpp`.  A message is written into
a buffer of fixed capacity, one field `TAG=VALUE` after the other; what does not fit is left out.
The buffer is the list of the bytes written so far, and the position is their number.

When everything fits, a message is the text of its fields (`appendFields_of_room`), and a field is
found again under its tag (`fixValue_text`).
-/

namespace QuantTrade

/-- The decimal digits of a number: `%u` and `%lu`. -/
def decimal (n : ℕ) : List UInt8 :=
  ascii (Nat.toDigits 10 n)

/-- The decimal digits of an integer with its sign: `%ld`. -/
def decimalInt (x : ℤ) : List UInt8 :=
  if x < 0 then '-'.toUInt8 :: decimal x.natAbs else decimal x.natAbs

/-! ## Appending -/

section Append

variable (cap : ℕ) (buf : List UInt8)

/-- `fix_append_int`, of a 64-bit integer. -/
def fixAppendInt (val : ℤ) : List UInt8 :=
  let digits := decimalInt (val.bmod (2 ^ 64))
  if cap ≤ buf.length then buf
  else if cap ≤ buf.length + digits.length then buf
  else buf ++ digits

/-- `fix_append_str`. -/
def fixAppendStr (val : List UInt8) : List UInt8 :=
  if cap ≤ buf.length + val.length then buf else buf ++ val

/-- `if (pos < cap) buf[pos++] = c`. -/
def fixAppendChar (c : UInt8) : List UInt8 :=
  if buf.length < cap then buf ++ [c] else buf

/-- `fix_append_field`. -/
def fixAppendField (tag : ℕ) (val : ℤ) : List UInt8 :=
  let buf := fixAppendInt cap buf tag
  let buf := fixAppendChar cap buf '='.toUInt8
  let buf := fixAppendInt cap buf val
  fixAppendChar cap buf soh

/-- `fix_append_field_str`. -/
def fixAppendFieldStr (tag : ℕ) (val : List UInt8) : List UInt8 :=
  let buf := fixAppendInt cap buf tag
  let buf := fixAppendChar cap buf '='.toUInt8
  let buf := fixAppendStr cap buf val
  fixAppendChar cap buf soh

end Append

/-! ## The session -/

/-- The versions of the protocol. -/
inductive FIXVersion where
  | fix42
  | fix44
  deriving DecidableEq, Repr

/-- What the session needs for sending. -/
structure FIXSender where
  senderComp : List UInt8
  targetComp : List UInt8
  version : FIXVersion := .fix42
  sockfd : ℤ := -1
  /-- The number of the next message, 32 bits wide. -/
  msgSeqNum : ℕ := 1

/-- `TransactTime` is always the same. -/
def transactTime : List UInt8 :=
  ascii ['2', '0', '2', '6', '0', '1', '0', '1', '-', '0', '0', ':', '0', '0', ':', '0', '0']

/-- `HEARTBEAT_INTERVAL_S`. -/
def heartbeatIntervalS : ℕ := 30

/-- `%03u` of the sum of the bytes modulo 256. -/
def checksumDigits (bytes : List UInt8) : List UInt8 :=
  let sum := (bytes.map UInt8.toNat).sum % 256
  decimal (sum / 100) ++ decimal (sum / 10 % 10) ++ decimal (sum % 10)

/-- `finalize`: the checksum of what is in the buffer is appended; the length of the body is not
filled in. -/
def finalize (cap : ℕ) (buf : List UInt8) : List UInt8 :=
  fixAppendFieldStr cap buf 10 (checksumDigits buf)

namespace FIXSender

variable (s : FIXSender) (cap : ℕ)

/-- The text of `BeginString`. -/
def beginString : List UInt8 :=
  match s.version with
  | .fix42 => ascii ['F', 'I', 'X', '.', '4', '.', '2']
  | .fix44 => ascii ['F', 'I', 'X', '.', '4', '.', '4']

/-- `write_header`: the first digit of `BodyLength` is overwritten with a null byte. -/
def writeHeader (msgType : Char) : List UInt8 :=
  let buf := fixAppendFieldStr cap [] 8 s.beginString
  let buf := fixAppendFieldStr cap buf 9 (ascii ['0', '0', '0', '0', '0', '0'])
  let buf := buf.set (buf.length - 7) 0
  let buf := fixAppendFieldStr cap buf 35 (ascii [msgType])
  let buf := fixAppendFieldStr cap buf 49 s.senderComp
  let buf := fixAppendFieldStr cap buf 56 s.targetComp
  fixAppendField cap buf 34 s.msgSeqNum

/-- `msg_seq_num_++`, which `write_header` does as well. -/
def advance : FIXSender :=
  { s with msgSeqNum := (s.msgSeqNum + 1) % 2 ^ 32 }

/-- `encode_logon`. -/
def encodeLogon : List UInt8 :=
  let buf := s.writeHeader cap 'A'
  let buf := fixAppendField cap buf 98 0
  let buf := fixAppendField cap buf 108 heartbeatIntervalS
  finalize cap buf

/-- `encode_logout`. -/
def encodeLogout : List UInt8 :=
  finalize cap (s.writeHeader cap '5')

/-- `encode_heartbeat`. -/
def encodeHeartbeat (testReqId : Option (List UInt8)) : List UInt8 :=
  let buf := s.writeHeader cap '0'
  let buf :=
    match testReqId with
    | none => buf
    | some id => fixAppendFieldStr cap buf 112 id
  finalize cap buf

/-- `encode_new_order`: the time stamp of the strategy serves as `ClOrdID`. -/
def encodeNewOrder (req : OrderRequest) : List UInt8 :=
  let buf := s.writeHeader cap 'D'
  let buf := fixAppendFieldStr cap buf 11 (decimal (req.strategyTsNs % 2 ^ 64))
  let buf := fixAppendField cap buf 54 (if req.side = .buy then 1 else 2)
  let buf := fixAppendField cap buf 40 (if req.type = .market then 1 else 2)
  let buf := fixAppendFieldStr cap buf 55 (decimal (req.instrumentId % 2 ^ 32))
  let buf := if req.type ≠ .market then fixAppendField cap buf 44 req.price else buf
  let buf := fixAppendField cap buf 38 req.qty
  let buf := fixAppendFieldStr cap buf 60 transactTime
  finalize cap buf

/-- `encode_cancel`. -/
def encodeCancel (origCloid : ℕ) : List UInt8 :=
  let id := decimal (origCloid % 2 ^ 64)
  let buf := s.writeHeader cap 'F'
  let buf := fixAppendFieldStr cap buf 41 id
  let buf := fixAppendFieldStr cap buf 11 id
  let buf := fixAppendFieldStr cap buf 60 transactTime
  finalize cap buf

/-- `encode_modify`. -/
def encodeModify (req : ModifyRequest) : List UInt8 :=
  let id := decimal (req.clientOrderId % 2 ^ 64)
  let buf := s.writeHeader cap 'G'
  let buf := fixAppendFieldStr cap buf 41 id
  let buf := fixAppendFieldStr cap buf 11 id
  let buf := fixAppendField cap buf 44 req.newPrice
  let buf := fixAppendField cap buf 38 req.newQty
  let buf := fixAppendFieldStr cap buf 60 transactTime
  finalize cap buf

end FIXSender

/-! ## Messages that fit -/

/-- The text of a field: `TAG=VALUE` and the separator. -/
def fieldText (field : ℕ × List UInt8) : List UInt8 :=
  decimal field.1 ++ '='.toUInt8 :: (field.2 ++ [soh])

/-- The text of some fields. -/
def text (fields : List (ℕ × List UInt8)) : List UInt8 :=
  fields.flatMap fieldText

lemma length_fieldText (field : ℕ × List UInt8) :
    (fieldText field).length = (decimal field.1).length + field.2.length + 2 := by
  simp [fieldText]
  omega

lemma text_append (fields fields' : List (ℕ × List UInt8)) :
    text (fields ++ fields') = text fields ++ text fields' :=
  List.flatMap_append

/-- A number within the bounds of its type has no more digits than the largest one. -/
lemma length_decimal_le {n k : ℕ} (hk : 0 < k) (h : n < 10 ^ k) : (decimal n).length ≤ k := by
  rw [decimal, ascii, List.length_map]
  exact Nat.toDigits_length 10 n k hk h

lemma length_decimal_pos (n : ℕ) : 0 < (decimal n).length := by
  rw [decimal, ascii, List.length_map]
  exact Nat.length_toDigits_pos

lemma decimalInt_natCast {n : ℕ} (h : n < 2 ^ 63) :
    decimalInt ((n : ℤ).bmod (2 ^ 64)) = decimal n := by
  have hbmod : (n : ℤ).bmod (2 ^ 64) = n := Int.bmod_eq_of_le_mul_two (by omega) (by omega)
  rw [hbmod, decimalInt, if_neg (by omega), Int.natAbs_natCast]

lemma length_decimalInt_pos (x : ℤ) : 0 < (decimalInt x).length := by
  unfold decimalInt
  split_ifs
  · simp
  · exact length_decimal_pos _

lemma length_decimalInt_bmod_le (x : ℤ) : (decimalInt (x.bmod (2 ^ 64))).length ≤ 20 := by
  have hlower := Int.le_bmod (x := x) (show 0 < 2 ^ 64 by decide)
  have hupper := Int.bmod_lt (x := x) (show 0 < 2 ^ 64 by decide)
  have hdigits := length_decimal_le (n := (x.bmod (2 ^ 64)).natAbs) (k := 19) (by decide) (by omega)
  unfold decimalInt
  split_ifs
  · rw [List.length_cons]
    omega
  · omega

section Room

variable {cap : ℕ} {buf : List UInt8}

/-- A number is appended like its text. -/
lemma fixAppendInt_eq (val : ℤ) :
    fixAppendInt cap buf val = fixAppendStr cap buf (decimalInt (val.bmod (2 ^ 64))) := by
  have hpos := length_decimalInt_pos (val.bmod (2 ^ 64))
  unfold fixAppendInt fixAppendStr
  dsimp only
  split_ifs
  · rfl
  · omega
  · rfl
  · rfl

/-- A field with a number is appended like one with the text of the number. -/
lemma fixAppendField_eq (tag : ℕ) (val : ℤ) :
    fixAppendField cap buf tag val =
      fixAppendFieldStr cap buf tag (decimalInt (val.bmod (2 ^ 64))) := by
  unfold fixAppendField fixAppendFieldStr
  dsimp only
  rw [fixAppendInt_eq val]

lemma fixAppendStr_of_room {val : List UInt8} (h : buf.length + val.length < cap) :
    fixAppendStr cap buf val = buf ++ val :=
  if_neg (by omega)

lemma fixAppendChar_of_room {c : UInt8} (h : buf.length < cap) :
    fixAppendChar cap buf c = buf ++ [c] :=
  if_pos h

/-- A field that fits is appended. -/
lemma fixAppendFieldStr_of_room {tag : ℕ} {val : List UInt8} (htag : tag < 2 ^ 63)
    (h : buf.length + (fieldText (tag, val)).length ≤ cap) :
    fixAppendFieldStr cap buf tag val = buf ++ fieldText (tag, val) := by
  rw [length_fieldText] at h
  dsimp only at h
  have hdigits : fixAppendInt cap buf tag = buf ++ decimal tag := by
    rw [fixAppendInt_eq, decimalInt_natCast htag]
    exact fixAppendStr_of_room (by omega)
  have hequals : fixAppendChar cap (buf ++ decimal tag) '='.toUInt8 =
      buf ++ decimal tag ++ ['='.toUInt8] := by
    apply fixAppendChar_of_room
    rw [List.length_append]
    omega
  have hval : fixAppendStr cap (buf ++ decimal tag ++ ['='.toUInt8]) val =
      buf ++ decimal tag ++ ['='.toUInt8] ++ val := by
    apply fixAppendStr_of_room
    rw [List.length_append, List.length_append, List.length_singleton]
    omega
  have hend : fixAppendChar cap (buf ++ decimal tag ++ ['='.toUInt8] ++ val) soh =
      buf ++ decimal tag ++ ['='.toUInt8] ++ val ++ [soh] := by
    apply fixAppendChar_of_room
    rw [List.length_append, List.length_append, List.length_append, List.length_singleton]
    omega
  unfold fixAppendFieldStr
  dsimp only
  rw [hdigits, hequals, hval, hend]
  simp [fieldText]

/-- Fields that are appended one after the other. -/
def appendFields (cap : ℕ) (buf : List UInt8) (fields : List (ℕ × List UInt8)) : List UInt8 :=
  fields.foldl (fun buf field => fixAppendFieldStr cap buf field.1 field.2) buf

/-- Fields that fit are appended. -/
lemma appendFields_of_room {fields : List (ℕ × List UInt8)} (htags : ∀ f ∈ fields, f.1 < 2 ^ 63)
    (h : buf.length + (text fields).length ≤ cap) :
    appendFields cap buf fields = buf ++ text fields := by
  induction fields generalizing buf with
  | nil => simp [appendFields, text]
  | cons field fields ih =>
    have htext : text (field :: fields) = fieldText field ++ text fields := rfl
    rw [htext, List.length_append] at h
    have hfirst : fixAppendFieldStr cap buf field.1 field.2 = buf ++ fieldText field :=
      fixAppendFieldStr_of_room (htags field List.mem_cons_self) (by rw [Prod.mk.eta]; omega)
    have hcons : appendFields cap buf (field :: fields) =
        appendFields cap (fixAppendFieldStr cap buf field.1 field.2) fields := rfl
    rw [hcons, hfirst, ih (fun f hf => htags f (List.mem_cons_of_mem _ hf)), htext,
      List.append_assoc]
    rw [List.length_append]
    omega

/-- Nothing that was written is taken back. -/
lemma length_le_fixAppendStr (cap : ℕ) (buf val : List UInt8) :
    buf.length ≤ (fixAppendStr cap buf val).length := by
  unfold fixAppendStr
  split_ifs
  · exact le_rfl
  · rw [List.length_append]
    exact Nat.le_add_right ..

lemma length_le_fixAppendChar (cap : ℕ) (buf : List UInt8) (c : UInt8) :
    buf.length ≤ (fixAppendChar cap buf c).length := by
  unfold fixAppendChar
  split_ifs
  · rw [List.length_append]
    exact Nat.le_add_right ..
  · exact le_rfl

lemma length_le_fixAppendFieldStr (cap : ℕ) (buf : List UInt8) (tag : ℕ) (val : List UInt8) :
    buf.length ≤ (fixAppendFieldStr cap buf tag val).length := by
  unfold fixAppendFieldStr
  dsimp only
  rw [fixAppendInt_eq]
  refine le_trans ?_ (length_le_fixAppendChar ..)
  refine le_trans ?_ (length_le_fixAppendStr ..)
  refine le_trans ?_ (length_le_fixAppendChar ..)
  exact length_le_fixAppendStr ..

lemma length_le_appendFields (cap : ℕ) (buf : List UInt8) (fields : List (ℕ × List UInt8)) :
    buf.length ≤ (appendFields cap buf fields).length := by
  induction fields generalizing buf with
  | nil => exact le_rfl
  | cons field fields ih => exact (length_le_fixAppendFieldStr ..).trans (ih _)

end Room

/-! ## The messages as texts -/

/-- The text of a message: its fields and the checksum of their text. -/
def messageText (fields : List (ℕ × List UInt8)) : List UInt8 :=
  text (fields ++ [(10, checksumDigits (text fields))])

/-- The text of a message is its fields and the checksum. -/
lemma messageText_eq (fields : List (ℕ × List UInt8)) :
    messageText fields = text fields ++ fieldText (10, checksumDigits (text fields)) := by
  rw [messageText, text_append]
  simp [text]

lemma finalize_of_room {cap : ℕ} {fields : List (ℕ × List UInt8)}
    (h : (messageText fields).length ≤ cap) : finalize cap (text fields) = messageText fields := by
  rw [messageText_eq, List.length_append] at h
  rw [finalize, fixAppendFieldStr_of_room (by decide) h, messageText_eq]

namespace FIXSender

variable (s : FIXSender)

/-- The fields of a header; the value of `BodyLength` is a placeholder. -/
def headerFields (msgType : Char) : List (ℕ × List UInt8) :=
  [(8, s.beginString), (9, 0 :: ascii ['0', '0', '0', '0', '0']), (35, ascii [msgType]),
    (49, s.senderComp), (56, s.targetComp), (34, decimalInt ((s.msgSeqNum : ℤ).bmod (2 ^ 64)))]

/-- The fields of a new order. -/
def newOrderFields (req : OrderRequest) : List (ℕ × List UInt8) :=
  [(11, decimal (req.strategyTsNs % 2 ^ 64)),
    (54, decimalInt ((if req.side = .buy then 1 else 2 : ℤ).bmod (2 ^ 64))),
    (40, decimalInt ((if req.type = .market then 1 else 2 : ℤ).bmod (2 ^ 64))),
    (55, decimal (req.instrumentId % 2 ^ 32))] ++
  (if req.type ≠ .market then [(44, decimalInt (req.price.bmod (2 ^ 64)))] else []) ++
  [(38, decimalInt (req.qty.bmod (2 ^ 64))), (60, transactTime)]

/-- The fields of a cancel. -/
def cancelFields (origCloid : ℕ) : List (ℕ × List UInt8) :=
  [(41, decimal (origCloid % 2 ^ 64)), (11, decimal (origCloid % 2 ^ 64)), (60, transactTime)]

/-- The fields of a change. -/
def modifyFields (req : ModifyRequest) : List (ℕ × List UInt8) :=
  [(41, decimal (req.clientOrderId % 2 ^ 64)), (11, decimal (req.clientOrderId % 2 ^ 64)),
    (44, decimalInt (req.newPrice.bmod (2 ^ 64))), (38, decimalInt (req.newQty.bmod (2 ^ 64))),
    (60, transactTime)]

variable {s} {cap : ℕ}

/-- The first two fields of a header, with the null byte. -/
private lemma set_text_begin :
    let buf := text [(8, s.beginString), (9, ascii ['0', '0', '0', '0', '0', '0'])]
    buf.length = 19 ∧ buf.set (buf.length - 7) 0 =
      text [(8, s.beginString), (9, 0 :: ascii ['0', '0', '0', '0', '0'])] := by
  unfold beginString
  cases s.version <;> decide

/-- The first two fields take 19 bytes. -/
lemma length_text_begin :
    (text [(8, s.beginString), (9, 0 :: ascii ['0', '0', '0', '0', '0'])]).length = 19 := by
  unfold beginString
  cases s.version <;> decide

lemma text_headerFields (msgType : Char) :
    text (s.headerFields msgType) =
      text [(8, s.beginString), (9, 0 :: ascii ['0', '0', '0', '0', '0'])] ++
        text [(35, ascii [msgType]), (49, s.senderComp), (56, s.targetComp),
          (34, decimalInt ((s.msgSeqNum : ℤ).bmod (2 ^ 64)))] := by
  rw [← text_append]
  rfl

/-- A header that fits is the text of its fields. -/
lemma writeHeader_of_room {msgType : Char} (h : (text (s.headerFields msgType)).length ≤ cap) :
    s.writeHeader cap msgType = text (s.headerFields msgType) := by
  obtain ⟨hlen, hset⟩ := set_text_begin (s := s)
  rw [text_headerFields, List.length_append, length_text_begin] at h
  have hbegin : appendFields cap []
      [(8, s.beginString), (9, ascii ['0', '0', '0', '0', '0', '0'])] =
      text [(8, s.beginString), (9, ascii ['0', '0', '0', '0', '0', '0'])] := by
    rw [appendFields_of_room (by simp), List.nil_append]
    rw [hlen, List.length_nil]
    omega
  have hrest : appendFields cap
      (text [(8, s.beginString), (9, 0 :: ascii ['0', '0', '0', '0', '0'])])
      [(35, ascii [msgType]), (49, s.senderComp), (56, s.targetComp),
        (34, decimalInt ((s.msgSeqNum : ℤ).bmod (2 ^ 64)))] = text (s.headerFields msgType) := by
    rw [appendFields_of_room (by simp), text_headerFields]
    rw [length_text_begin]
    exact h
  rw [← hrest, ← hset, ← hbegin]
  simp only [writeHeader, appendFields, List.foldl_cons, List.foldl_nil, fixAppendField_eq]

/-- Fields that fit behind a header give the text of the message. -/
lemma finalize_appendFields {msgType : Char} {fields : List (ℕ × List UInt8)}
    (htags : ∀ f ∈ fields, f.1 < 2 ^ 63)
    (h : (messageText (s.headerFields msgType ++ fields)).length ≤ cap) :
    finalize cap (appendFields cap (s.writeHeader cap msgType) fields) =
      messageText (s.headerFields msgType ++ fields) := by
  have hbody : (text (s.headerFields msgType)).length + (text fields).length ≤ cap := by
    rw [messageText, text_append, text_append, List.length_append, List.length_append] at h
    omega
  rw [writeHeader_of_room (by omega), appendFields_of_room htags hbody, ← text_append,
    finalize_of_room h]

/-- The encoders append their fields to a header and finish the message. -/
lemma encodeNewOrder_eq (req : OrderRequest) :
    s.encodeNewOrder cap req =
      finalize cap (appendFields cap (s.writeHeader cap 'D') (newOrderFields req)) := by
  unfold encodeNewOrder newOrderFields appendFields
  by_cases hmarket : req.type = .market <;> simp [hmarket, fixAppendField_eq]

lemma encodeCancel_eq (origCloid : ℕ) :
    s.encodeCancel cap origCloid =
      finalize cap (appendFields cap (s.writeHeader cap 'F') (cancelFields origCloid)) :=
  rfl

lemma encodeModify_eq (req : ModifyRequest) :
    s.encodeModify cap req =
      finalize cap (appendFields cap (s.writeHeader cap 'G') (modifyFields req)) := by
  simp only [encodeModify, modifyFields, appendFields, List.foldl_cons, List.foldl_nil,
    fixAppendField_eq]

lemma encodeNewOrder_of_room {req : OrderRequest}
    (h : (messageText (s.headerFields 'D' ++ newOrderFields req)).length ≤ cap) :
    s.encodeNewOrder cap req = messageText (s.headerFields 'D' ++ newOrderFields req) := by
  rw [encodeNewOrder_eq, finalize_appendFields _ h]
  unfold newOrderFields
  by_cases hmarket : req.type = .market <;> simp [hmarket]

lemma encodeCancel_of_room {origCloid : ℕ}
    (h : (messageText (s.headerFields 'F' ++ cancelFields origCloid)).length ≤ cap) :
    s.encodeCancel cap origCloid = messageText (s.headerFields 'F' ++ cancelFields origCloid) := by
  rw [encodeCancel_eq, finalize_appendFields _ h]
  simp [cancelFields]

lemma encodeModify_of_room {req : ModifyRequest}
    (h : (messageText (s.headerFields 'G' ++ modifyFields req)).length ≤ cap) :
    s.encodeModify cap req = messageText (s.headerFields 'G' ++ modifyFields req) := by
  rw [encodeModify_eq, finalize_appendFields _ h]
  simp [modifyFields]

/-! ## How long messages are -/

lemma length_text_le {fields : List (ℕ × List UInt8)} (htags : ∀ f ∈ fields, f.1 < 100) :
    (text fields).length ≤ (fields.map fun f => f.2.length + 4).sum := by
  induction fields with
  | nil => exact le_rfl
  | cons f fields ih =>
    have hrest := ih fun g hg => htags g (List.mem_cons_of_mem f hg)
    have htag := length_decimal_le (n := f.1) (k := 2) (by decide) (htags f List.mem_cons_self)
    have htext : text (f :: fields) = fieldText f ++ text fields := rfl
    rw [htext, List.length_append, length_fieldText, List.map_cons, List.sum_cons]
    omega

lemma length_checksumDigits (bytes : List UInt8) : (checksumDigits bytes).length ≤ 3 := by
  have hlt := Nat.mod_lt (bytes.map UInt8.toNat).sum (show 0 < 256 by decide)
  have hhundreds := length_decimal_le (n := (bytes.map UInt8.toNat).sum % 256 / 100) (k := 1)
    (by decide) (by omega)
  have htens := length_decimal_le (n := (bytes.map UInt8.toNat).sum % 256 / 10 % 10) (k := 1)
    (by decide) (by omega)
  have hones := length_decimal_le (n := (bytes.map UInt8.toNat).sum % 256 % 10) (k := 1)
    (by decide) (by omega)
  unfold checksumDigits
  dsimp only
  rw [List.length_append, List.length_append]
  omega

/-- The names of the two sides do not contain the separator, and they leave room for the other
fields of a cancel in its buffer, however long the numbers are.  The number of the next message has
32 bits. -/
structure WellNamed (s : FIXSender) : Prop where
  sender : soh ∉ s.senderComp
  target : soh ∉ s.targetComp
  room : s.senderComp.length + s.targetComp.length ≤ 134
  seq : s.msgSeqNum < 2 ^ 32

/-- The tags of a header. -/
lemma headerFields_tags {msgType : Char} :
    (s.headerFields msgType).map Prod.fst = [8, 9, 35, 49, 56, 34] :=
  rfl

/-- The lengths of the values behind the first two, with 4 bytes more for each field. -/
private lemma sum_header (sender target seq : List UInt8) (msgType : Char) :
    (([(35, ascii [msgType]), (49, sender), (56, target), (34, seq)] :
      List (ℕ × List UInt8)).map fun f => f.2.length + 4).sum =
      sender.length + target.length + seq.length + 17 := by
  simp [ascii]
  omega

/-- A header takes at most 46 bytes besides the names. -/
private lemma length_text_headerFields_le (hs : s.WellNamed) (msgType : Char) :
    (text (s.headerFields msgType)).length ≤
      46 + (s.senderComp.length + s.targetComp.length) := by
  have hseq : (decimalInt ((s.msgSeqNum : ℤ).bmod (2 ^ 64))).length ≤ 10 := by
    have hlt := hs.seq
    rw [decimalInt_natCast (by omega)]
    exact length_decimal_le (by decide) (by omega)
  have hrest : (text [(35, ascii [msgType]), (49, s.senderComp), (56, s.targetComp),
      (34, decimalInt ((s.msgSeqNum : ℤ).bmod (2 ^ 64)))]).length ≤ _ :=
    length_text_le (by simp)
  rw [sum_header] at hrest
  rw [text_headerFields, List.length_append, length_text_begin]
  omega

/-- The text of a message, when the names leave room; the checksum takes 7 bytes. -/
lemma length_messageText_le_text {msgType : Char} {fields : List (ℕ × List UInt8)}
    (hs : s.WellNamed) :
    (messageText (s.headerFields msgType ++ fields)).length ≤ 187 + (text fields).length := by
  have hheader := length_text_headerFields_le hs msgType
  have hchecksum := length_checksumDigits (text (s.headerFields msgType ++ fields))
  have htag : (decimal 10).length = 2 := rfl
  have hroom := hs.room
  have hlast (digits : List UInt8) : (text [(10, digits)]).length = digits.length + 4 := by
    simp only [text, List.flatMap_singleton, length_fieldText, htag]
    omega
  rw [messageText, text_append, text_append, List.length_append, List.length_append, hlast,
    ← text_append]
  omega

lemma length_messageText_le {msgType : Char} {fields : List (ℕ × List UInt8)}
    (hs : s.WellNamed) (htags : ∀ f ∈ fields, f.1 < 100) :
    (messageText (s.headerFields msgType ++ fields)).length ≤
      187 + (fields.map fun f => f.2.length + 4).sum :=
  (length_messageText_le_text hs).trans (Nat.add_le_add_left (length_text_le htags) 187)

/-- A new order is never cut short. -/
lemma encodeNewOrder_of_wellNamed (hs : s.WellNamed) (req : OrderRequest) :
    s.encodeNewOrder 512 req = messageText (s.headerFields 'D' ++ newOrderFields req) := by
  apply encodeNewOrder_of_room
  have hid := length_decimal_le (n := req.strategyTsNs % 2 ^ 64) (k := 20) (by decide) (by omega)
  have hsym := length_decimal_le (n := req.instrumentId % 2 ^ 32) (k := 10) (by decide) (by omega)
  have hone := length_decimalInt_bmod_le 1
  have htwo := length_decimalInt_bmod_le 2
  have hprice := length_decimalInt_bmod_le req.price
  have hqty := length_decimalInt_bmod_le req.qty
  have htime : transactTime.length = 17 := rfl
  refine (length_messageText_le hs ?_).trans ?_
  · unfold newOrderFields
    by_cases hmarket : req.type = .market <;> simp [hmarket]
  · unfold newOrderFields
    by_cases hmarket : req.type = .market <;> by_cases hbuy : req.side = .buy <;>
      simp only [hmarket, hbuy, if_true, if_false, ne_eq, not_true_eq_false, not_false_eq_true,
        List.map_append, List.map_cons, List.map_nil, List.sum_append, List.sum_cons,
        List.sum_nil, htime] <;>
      omega

/-- A cancel is never cut short. -/
lemma encodeCancel_of_wellNamed (hs : s.WellNamed) (origCloid : ℕ) :
    s.encodeCancel 256 origCloid = messageText (s.headerFields 'F' ++ cancelFields origCloid) := by
  apply encodeCancel_of_room
  have hid := length_decimal_le (n := origCloid % 2 ^ 64) (k := 20) (by decide) (by omega)
  have htime : transactTime.length = 17 := rfl
  refine (length_messageText_le hs ?_).trans ?_
  · simp [cancelFields]
  · simp only [cancelFields, List.map_cons, List.map_nil, List.sum_cons, List.sum_nil, htime]
    omega

/-- A change is never cut short. -/
lemma encodeModify_of_wellNamed (hs : s.WellNamed) (req : ModifyRequest) :
    s.encodeModify 512 req = messageText (s.headerFields 'G' ++ modifyFields req) := by
  apply encodeModify_of_room
  have hid := length_decimal_le (n := req.clientOrderId % 2 ^ 64) (k := 20) (by decide) (by omega)
  have hprice := length_decimalInt_bmod_le req.newPrice
  have hqty := length_decimalInt_bmod_le req.newQty
  have htime : transactTime.length = 17 := rfl
  refine (length_messageText_le hs ?_).trans ?_
  · simp [modifyFields]
  · simp only [modifyFields, List.map_cons, List.map_nil, List.sum_cons, List.sum_nil, htime]
    omega

/-! ## Messages are never empty -/

/-- The version fits. -/
lemma length_version_ge (hcap : 10 ≤ cap) :
    10 ≤ (fixAppendFieldStr cap [] 8 s.beginString).length := by
  have hlength : (fieldText (8, s.beginString)).length = 10 := by
    unfold beginString
    cases s.version <;> decide
  rw [fixAppendFieldStr_of_room (by decide) (by rw [hlength, List.length_nil]; omega),
    List.length_append, hlength]
  omega

/-- A header begins with the version, however long the names are. -/
private lemma length_writeHeader_pos (msgType : Char) (hcap : 10 ≤ cap) :
    0 < (s.writeHeader cap msgType).length := by
  have hfirst : 0 < (fixAppendFieldStr cap [] 8 s.beginString).length :=
    lt_of_lt_of_le (by decide) (length_version_ge hcap)
  unfold writeHeader
  dsimp only
  rw [fixAppendField_eq]
  refine hfirst.trans_le ?_
  refine le_trans ?_ (length_le_fixAppendFieldStr ..)
  refine le_trans ?_ (length_le_fixAppendFieldStr ..)
  refine le_trans ?_ (length_le_fixAppendFieldStr ..)
  refine le_trans ?_ (length_le_fixAppendFieldStr ..)
  rw [List.length_set]
  exact length_le_fixAppendFieldStr ..

/-- Whatever fits of the fields, the message is not empty. -/
lemma finalize_appendFields_ne_nil (msgType : Char) (fields : List (ℕ × List UInt8))
    (hcap : 10 ≤ cap) :
    finalize cap (appendFields cap (s.writeHeader cap msgType) fields) ≠ [] := by
  rw [← List.length_pos_iff]
  have hheader := length_writeHeader_pos (s := s) msgType hcap
  have hfields := length_le_appendFields cap (s.writeHeader cap msgType) fields
  exact hheader.trans_le (hfields.trans (length_le_fixAppendFieldStr ..))

end FIXSender

/-! ## Reading a message -/

/-- The tag and the value of a field without its separator. -/
def parseField (field : List UInt8) : List UInt8 × List UInt8 :=
  (field.takeWhile (· ≠ '='.toUInt8), (field.dropWhile (· ≠ '='.toUInt8)).drop 1)

/-- The value of the first field with the tag. -/
def fixValue (message : List UInt8) (tag : ℕ) : Option (List UInt8) :=
  (((message.splitOn soh).map parseField).find? fun f => f.1 = decimal tag).map Prod.snd

/-- The number that some digits stand for. -/
def readDecimal (digits : List UInt8) : ℕ :=
  Nat.ofDigitChars 10 (digits.map fun b => Char.ofNat b.toNat) 0

/-- A digit is kept by the conversion to a byte. -/
private lemma ofNat_toUInt8 {c : Char} (h : c.isDigit) : Char.ofNat c.toUInt8.toNat = c := by
  have hlt : c.toNat < 256 := by
    simp only [Char.isDigit, Bool.and_eq_true, decide_eq_true_eq] at h
    have hle : c.val.toNat ≤ 57 := UInt32.le_iff_toNat_le.mp h.2
    change c.val.toNat < 256
    omega
  have hnat : c.toUInt8.toNat = c.toNat := by
    simp only [Char.toUInt8, UInt32.toNat_toUInt8]
    exact Nat.mod_eq_of_lt hlt
  rw [hnat, Char.ofNat_toNat]

/-- A number is read as it was written. -/
lemma readDecimal_decimal (n : ℕ) : readDecimal (decimal n) = n := by
  have hchars : (decimal n).map (fun b => Char.ofNat b.toNat) = Nat.toDigits 10 n := by
    rw [decimal, ascii, List.map_map]
    conv_rhs => rw [← List.map_id (Nat.toDigits 10 n)]
    apply List.map_congr_left
    intro c hc
    exact ofNat_toUInt8 (Nat.isDigit_of_mem_toDigits (by decide) (by decide) hc)
  rw [readDecimal, hchars, Nat.ofDigitChars_ten_toDigits]

lemma decimal_injective {m n : ℕ} (h : decimal m = decimal n) : m = n := by
  rw [← readDecimal_decimal m, h, readDecimal_decimal]

lemma isDigit_iff {b : UInt8} : isDigit b = true ↔ 48 ≤ b.toNat ∧ b.toNat ≤ 57 := by
  unfold isDigit
  rw [Bool.and_eq_true, decide_eq_true_eq, decide_eq_true_eq, UInt8.le_iff_toNat_le,
    UInt8.le_iff_toNat_le]
  rfl

/-- A digit is one as a byte. -/
lemma isDigit_toUInt8 {c : Char} (h : c.isDigit) : isDigit c.toUInt8 = true := by
  simp only [Char.isDigit, Bool.and_eq_true, decide_eq_true_eq] at h
  have hlower : 48 ≤ c.val.toNat := UInt32.le_iff_toNat_le.mp h.1
  have hupper : c.val.toNat ≤ 57 := UInt32.le_iff_toNat_le.mp h.2
  rw [isDigit_iff, ← Char.toUInt8_val, UInt32.toNat_toUInt8]
  omega

/-- The text of a number consists of digits. -/
lemma isDigit_of_mem_decimal {n : ℕ} {b : UInt8} (h : b ∈ decimal n) : isDigit b = true := by
  obtain ⟨c, hc, rfl⟩ := List.mem_map.mp h
  exact isDigit_toUInt8 (Nat.isDigit_of_mem_toDigits (by decide) (by decide) hc)

/-- The digits of a number are neither separators nor equals signs. -/
lemma ne_of_mem_decimal {n : ℕ} {b : UInt8} (h : b ∈ decimal n) : b ≠ soh ∧ b ≠ '='.toUInt8 := by
  have hdigit := isDigit_of_mem_decimal h
  constructor
  · rintro rfl
    exact absurd hdigit (by decide)
  · rintro rfl
    exact absurd hdigit (by decide)

lemma soh_not_mem_decimal (n : ℕ) : soh ∉ decimal n :=
  fun h => (ne_of_mem_decimal h).1 rfl

lemma soh_not_mem_decimalInt (x : ℤ) : soh ∉ decimalInt x := by
  unfold decimalInt
  split_ifs
  · rw [List.mem_cons, not_or]
    exact ⟨by decide, soh_not_mem_decimal _⟩
  · exact soh_not_mem_decimal _

lemma soh_not_mem_checksumDigits (bytes : List UInt8) : soh ∉ checksumDigits bytes := by
  unfold checksumDigits
  simp [soh_not_mem_decimal]

/-- A field is parsed into its tag and its value. -/
lemma parseField_decimal (tag : ℕ) (value : List UInt8) :
    parseField (decimal tag ++ '='.toUInt8 :: value) = (decimal tag, value) := by
  have hdigits : ∀ b ∈ decimal tag, decide (b ≠ '='.toUInt8) = true := by
    intro b hb
    exact decide_eq_true (ne_of_mem_decimal hb).2
  unfold parseField
  rw [List.takeWhile_append_of_pos hdigits, List.dropWhile_append_of_pos hdigits]
  simp

/-- **A field is found under its tag.**  When no value contains the separator, the value found in
the text of some fields is that of the first field with the tag. -/
theorem fixValue_text {fields : List (ℕ × List UInt8)} (h : ∀ f ∈ fields, soh ∉ f.2) (tag : ℕ) :
    fixValue (text fields) tag = (fields.find? fun f => f.1 = tag).map Prod.snd := by
  induction fields with
  | nil =>
    have hne : [] ≠ decimal tag := by
      intro hnil
      have hpos := length_decimal_pos tag
      rw [← hnil, List.length_nil] at hpos
      omega
    simp [fixValue, text, parseField, hne]
  | cons f fields ih =>
    have hbody : soh ∉ decimal f.1 ++ '='.toUInt8 :: f.2 := by
      rw [List.mem_append, List.mem_cons, not_or, not_or]
      refine ⟨fun hmem => (ne_of_mem_decimal hmem).1 rfl, by decide, h f List.mem_cons_self⟩
    have htext : text (f :: fields) =
        (decimal f.1 ++ '='.toUInt8 :: f.2) ++ soh :: text fields := by
      simp [text, fieldText]
    have hsplit : (text (f :: fields)).splitOn soh =
        (decimal f.1 ++ '='.toUInt8 :: f.2) :: (text fields).splitOn soh := by
      rw [htext, List.splitOn_append_cons_self_of_not_mem hbody]
    have ih' := ih fun g hg => h g (List.mem_cons_of_mem f hg)
    unfold fixValue at ih' ⊢
    rw [hsplit, List.map_cons, parseField_decimal, List.find?_cons, List.find?_cons]
    by_cases htag : f.1 = tag
    · simp [htag]
    · have hne : decimal f.1 ≠ decimal tag := fun heq => htag (decimal_injective heq)
      simp only [hne, htag, decide_false]
      exact ih'

/-- The checksum of a message does not get in the way of its fields. -/
lemma fixValue_messageText {fields : List (ℕ × List UInt8)} (h : ∀ f ∈ fields, soh ∉ f.2) {tag : ℕ}
    (htag : 10 ≠ tag) :
    fixValue (messageText fields) tag = (fields.find? fun f => f.1 = tag).map Prod.snd := by
  rw [messageText, fixValue_text, List.find?_append]
  · simp [htag]
  · intro f hf
    rcases List.mem_append.mp hf with hf | hf
    · exact h f hf
    · rw [List.mem_singleton.mp hf]
      exact soh_not_mem_checksumDigits _

namespace FIXSender

variable {s : FIXSender}

/-- No value of a header contains the separator. -/
lemma soh_not_mem_headerFields (hsender : soh ∉ s.senderComp) (htarget : soh ∉ s.targetComp)
    {msgType : Char} (hmsg : msgType.toUInt8 ≠ soh) :
    ∀ f ∈ s.headerFields msgType, soh ∉ f.2 := by
  have hbegin : soh ∉ s.beginString := by
    unfold beginString
    cases s.version <;> decide
  have htype : soh ∉ ascii [msgType] := by
    rw [ascii, List.map_singleton, List.mem_singleton]
    exact hmsg.symm
  have hseq := soh_not_mem_decimalInt ((s.msgSeqNum : ℤ).bmod (2 ^ 64))
  unfold headerFields
  simp only [List.forall_mem_cons]
  exact ⟨hbegin, by decide, htype, hsender, htarget, hseq, by simp⟩

/-- A field behind the header is found. -/
private lemma fixValue_behind_header (hs : s.WellNamed) {msgType : Char}
    (hmsg : msgType.toUInt8 ≠ soh) {fields : List (ℕ × List UInt8)} (h : ∀ f ∈ fields, soh ∉ f.2)
    {tag : ℕ} (htag : tag ∉ [8, 9, 35, 49, 56, 34, 10]) :
    fixValue (messageText (s.headerFields msgType ++ fields)) tag =
      (fields.find? fun f => f.1 = tag).map Prod.snd := by
  have hheader : (s.headerFields msgType).find? (fun f => f.1 = tag) = none := by
    rw [List.find?_eq_none]
    intro f hf heq
    have hmem : f.1 ∈ [8, 9, 35, 49, 56, 34] := headerFields_tags ▸ List.mem_map_of_mem hf
    rw [of_decide_eq_true heq] at hmem
    exact htag (List.mem_append_left [10] hmem)
  have hlast : 10 ≠ tag := by
    rintro rfl
    exact htag (by decide)
  rw [fixValue_messageText _ hlast, List.find?_append, hheader, Option.none_or]
  exact List.forall_mem_append.mpr ⟨soh_not_mem_headerFields hs.sender hs.target hmsg, h⟩

/-- No value of a new order contains the separator. -/
lemma soh_not_mem_newOrderFields (req : OrderRequest) : ∀ f ∈ newOrderFields req, soh ∉ f.2 := by
  have hid := soh_not_mem_decimal (req.strategyTsNs % 2 ^ 64)
  have hsym := soh_not_mem_decimal (req.instrumentId % 2 ^ 32)
  have hnum := soh_not_mem_decimalInt
  have htime : soh ∉ transactTime := by decide
  unfold newOrderFields
  rw [List.forall_mem_append, List.forall_mem_append]
  refine ⟨⟨?_, ?_⟩, ?_⟩
  · simp only [List.forall_mem_cons]
    exact ⟨hid, hnum _, hnum _, hsym, by simp⟩
  · split_ifs
    · simp only [List.forall_mem_cons]
      exact ⟨hnum _, by simp⟩
    · simp
  · simp only [List.forall_mem_cons]
    exact ⟨hnum _, htime, by simp⟩

/-- No value of a cancel contains the separator. -/
lemma soh_not_mem_cancelFields (origCloid : ℕ) : ∀ f ∈ cancelFields origCloid, soh ∉ f.2 := by
  have hid := soh_not_mem_decimal (origCloid % 2 ^ 64)
  have htime : soh ∉ transactTime := by decide
  unfold cancelFields
  simp only [List.forall_mem_cons]
  exact ⟨hid, hid, htime, by simp⟩

/-- No value of a change contains the separator. -/
lemma soh_not_mem_modifyFields (req : ModifyRequest) : ∀ f ∈ modifyFields req, soh ∉ f.2 := by
  have hid := soh_not_mem_decimal (req.clientOrderId % 2 ^ 64)
  have hnum := soh_not_mem_decimalInt
  have htime : soh ∉ transactTime := by decide
  unfold modifyFields
  simp only [List.forall_mem_cons]
  exact ⟨hid, hid, hnum _, hnum _, htime, by simp⟩

/-- The `ClOrdID` of a new order is the time stamp of the request. -/
theorem fixValue_encodeNewOrder (hs : s.WellNamed) (req : OrderRequest) :
    fixValue (s.encodeNewOrder 512 req) 11 = some (decimal (req.strategyTsNs % 2 ^ 64)) := by
  rw [encodeNewOrder_of_wellNamed hs,
    fixValue_behind_header hs (by decide) (soh_not_mem_newOrderFields req) (by decide)]
  simp [newOrderFields]

/-- Both ids of a cancel are the id of the order. -/
theorem fixValue_encodeCancel (hs : s.WellNamed) (origCloid : ℕ) :
    fixValue (s.encodeCancel 256 origCloid) 41 = some (decimal (origCloid % 2 ^ 64)) ∧
      fixValue (s.encodeCancel 256 origCloid) 11 = some (decimal (origCloid % 2 ^ 64)) := by
  have hsoh := soh_not_mem_cancelFields origCloid
  rw [encodeCancel_of_wellNamed hs, fixValue_behind_header hs (by decide) hsoh (by decide),
    fixValue_behind_header hs (by decide) hsoh (by decide)]
  simp [cancelFields]

end FIXSender

end QuantTrade
