import Mathlib.Data.List.Nodup
import QuantTrade.Connectivity.FixFields
import QuantTrade.Connectivity.FixFraming

/-!
# Reading FIX messages back

A new order or a change that fits its buffer is read back with `fix_find_field` and `fix_read_int`,
wherever it stands in memory.  Every tag that is looked for belongs to one field and is found there
(`foundAtOwnField_text`), since a separator comes only between two fields and a tag ends with its
equals sign; and the numbers are printed as their decimal texts, which are read back in 64 bits.
-/

namespace QuantTrade

open ByteWindow (Holds)
open SeparatedSearch (joined)

/-! ## The fields of a text -/

/-- The text of some fields consists of segments that begin with the tags. -/
lemma text_eq_joined (fields : List (ℕ × List UInt8)) :
    text fields = joined soh (fields.map fun f => fieldKey f.1 ++ f.2) := by
  rw [text, joined, List.flatMap_map]
  congr 1
  funext f
  simp [fieldText, fieldKey]

/-- A tag is told from others by its equals sign. -/
lemma fieldKey_prefix_iff {tag tag' : ℕ} {value : List UInt8} :
    fieldKey tag <+: fieldKey tag' ++ value ↔ tag = tag' := by
  constructor
  · rintro ⟨rest, hrest⟩
    have hparsed := congrArg parseField hrest
    rw [fieldKey, fieldKey, List.append_assoc, List.append_assoc, List.singleton_append,
      List.singleton_append, parseField_decimal, parseField_decimal] at hparsed
    exact decimal_injective (Prod.mk.inj hparsed).1
  · rintro rfl
    exact List.prefix_append _ _

/-- The number read under a tag of a message. -/
def readField (mem : Memory) (buf len tag : ℕ) : ℤ :=
  fixReadInt mem (fixFindField mem buf len tag)

/-- One field has the tag, and the tag is found there: the value is behind the fields before it, the
tag and the equals sign. -/
def FoundAtOwnField (mem : Memory) (buf len : ℕ) (fields : List (ℕ × List UInt8)) (tag : ℕ) :
    Prop :=
  ∃ before value after, fields = before ++ (tag, value) :: after ∧
    (∀ f ∈ before ++ after, f.1 ≠ tag) ∧
    fixFindField mem buf len tag = some (buf + ((text before).length + (fieldKey tag).length))

section Text

variable {mem : Memory} {buf : ℕ} {first : ℕ × List UInt8} {fields : List (ℕ × List UInt8)}

lemma soh_not_mem_segments (hsoh : ∀ f ∈ fields, soh ∉ f.2) :
    ∀ segment ∈ fields.map fun f => fieldKey f.1 ++ f.2, soh ∉ segment := by
  intro segment hsegment
  obtain ⟨f, hf, rfl⟩ := List.mem_map.mp hsegment
  rw [List.mem_append, not_or]
  exact ⟨soh_not_mem_fieldKey f.1, hsoh f hf⟩

/-- A tag that no field behind the first has is not found. -/
lemma fixFindField_text_of_forall_ne {tag : ℕ} (h : Holds mem buf (text (first :: fields)))
    (hsoh : ∀ f ∈ first :: fields, soh ∉ f.2) (hne : ∀ f ∈ fields, f.1 ≠ tag) :
    fixFindField mem buf (text (first :: fields)).length tag = none := by
  rw [text_eq_joined, List.map_cons] at h ⊢
  refine fixFindField_of_forall_not h (soh_not_mem_segments hsoh) ?_
  intro segment hsegment
  obtain ⟨f, hf, rfl⟩ := List.mem_map.mp hsegment
  rw [fieldKey_prefix_iff]
  exact (hne f hf).symm

/-- **Finding a field.**  When all tags differ, each one behind the first is found at its own field,
and what is read there is read of its value. -/
theorem foundAtOwnField_text {tag : ℕ} {value : List UInt8}
    (h : Holds mem buf (text (first :: fields))) (hsoh : ∀ f ∈ first :: fields, soh ∉ f.2)
    (hnodup : ((first :: fields).map Prod.fst).Nodup) (hmem : (tag, value) ∈ fields)
    (hlength : value.length < rbufSize) :
    FoundAtOwnField mem buf (text (first :: fields)).length (first :: fields) tag ∧
      readField mem buf (text (first :: fields)).length tag = readText value := by
  obtain ⟨before, after, rfl⟩ := List.append_of_mem hmem
  have hne : ∀ f ∈ (first :: before) ++ after, f.1 ≠ tag := by
    rw [← List.cons_append, List.map_append, List.map_cons (l := after), List.nodup_middle,
      List.nodup_cons, ← List.map_append] at hnodup
    intro f hf htag
    have hsame := List.mem_map_of_mem (f := Prod.fst) hf
    rw [htag] at hsame
    exact hnodup.1 hsame
  have hsohBefore : ∀ f ∈ first :: before, soh ∉ f.2 := by
    intro f hf
    exact hsoh f (List.mem_append_left _ hf)
  have hbytes : text (first :: (before ++ (tag, value) :: after)) =
      joined soh ((fieldKey first.1 ++ first.2) ::
        (before.map (fun f => fieldKey f.1 ++ f.2) ++ (fieldKey tag ++ value) ::
          after.map fun f => fieldKey f.1 ++ f.2)) := by
    rw [text_eq_joined, List.map_cons, List.map_append, List.map_cons]
  rw [hbytes] at h
  obtain ⟨hfound, hvalue⟩ := fixFindField_of_prefix h (soh_not_mem_segments hsohBefore) (by
    intro segment hsegment
    obtain ⟨f, hf, rfl⟩ := List.mem_map.mp hsegment
    rw [fieldKey_prefix_iff]
    exact (hne f (List.mem_append_left _ (List.mem_cons_of_mem _ hf))).symm)
  rw [← hbytes] at hfound
  constructor
  · refine ⟨first :: before, value, after, rfl, hne, ?_⟩
    rw [hfound, text_eq_joined]
    rfl
  · rw [readField, hfound, fixReadInt_of_holds hvalue hlength]

end Text

/-! ## The numbers of a message -/

/-- An integer is read as it was printed. -/
lemma readText_decimalInt {x : ℤ} (h : InInt64 x) :
    readText (decimalInt (x.bmod (2 ^ 64))) = x := by
  rw [readText_of_decimalText (decimalText_decimalInt _), h.bmod_eq, h.bmod_eq]

/-- An unsigned number is read as it was printed, in a type of its own width. -/
lemma toUnsigned_readText_decimal {w n : ℕ} (hw : w ≤ 64) (h : n < 2 ^ w) :
    toUnsigned w (readText (decimal n)) = n := by
  have hdvd : (2 : ℤ) ^ w ∣ ((2 ^ 64 : ℕ) : ℤ) := by
    push_cast
    exact pow_dvd_pow 2 hw
  have hword : ((n : ℤ).bmod (2 ^ 64)) % 2 ^ w = n := by
    rw [← Int.emod_emod_of_dvd _ hdvd, Int.bmod_emod, Int.emod_emod_of_dvd _ hdvd]
    exact_mod_cast Nat.mod_eq_of_lt h
  rw [readText_of_decimalText (decimalText_of_digitsText (digitsText_decimal n)), toUnsigned, hword,
    Int.toNat_natCast]

/-! ## The messages -/

/-- The values of a request are values of their types. -/
def OrderRequest.Representable (req : OrderRequest) : Prop :=
  req.strategyTsNs < 2 ^ 64 ∧ req.instrumentId < 2 ^ 32 ∧ InInt64 req.price ∧ InInt64 req.qty

/-- The values of a change are values of their types. -/
def ModifyRequest.Representable (req : ModifyRequest) : Prop :=
  req.clientOrderId < 2 ^ 64 ∧ InInt64 req.newPrice ∧ InInt64 req.newQty

namespace OutMessage

variable {s : FIXSender} {m : OutMessage} {mem : Memory} {buf cap : ℕ}

/-- All fields of a message. -/
def allFields (m : OutMessage) (s : FIXSender) : List (ℕ × List UInt8) :=
  s.headerFields m.msgType ++ m.fields ++
    [(10, checksumDigits (text (s.headerFields m.msgType ++ m.fields)))]

lemma full_eq_text : m.full s = text (m.allFields s) := rfl

/-- The tags of the fields behind the header. -/
def tags : OutMessage → List ℕ
  | logon => [98, 108]
  | logout => []
  | heartbeat none => []
  | heartbeat (some _) => [112]
  | newOrder req => [11, 54, 40, 55] ++ (if req.type ≠ .market then [44] else []) ++ [38, 60]
  | cancel _ => [41, 11, 60]
  | modify _ => [41, 11, 44, 38, 60]

lemma map_fst_fields : m.fields.map Prod.fst = m.tags := by
  cases m with
  | logon => rfl
  | logout => rfl
  | heartbeat testReqId => cases testReqId <;> rfl
  | newOrder req =>
    rw [fields, FIXSender.newOrderFields, tags, List.map_append, List.map_append]
    split_ifs <;> rfl
  | cancel origCloid => rfl
  | modify req => rfl

lemma map_fst_allFields :
    (m.allFields s).map Prod.fst = [8, 9, 35, 49, 56, 34] ++ m.tags ++ [10] := by
  rw [allFields, List.map_append, List.map_append, FIXSender.headerFields_tags, map_fst_fields]
  rfl

/-- No two fields have the same tag. -/
lemma nodup_tags : ((m.allFields s).map Prod.fst).Nodup := by
  rw [map_fst_allFields]
  cases m with
  | logon => decide
  | logout => decide
  | heartbeat testReqId => cases testReqId <;> simp [tags]
  | newOrder req =>
    rw [tags]
    split_ifs <;> decide
  | cancel origCloid => simp [tags]
  | modify req => simp [tags]

/-- No value contains the separator when the names and the values behind the header do not. -/
lemma soh_not_mem_allFields (hsender : soh ∉ s.senderComp) (htarget : soh ∉ s.targetComp)
    (hfields : ∀ f ∈ m.fields, soh ∉ f.2) : ∀ f ∈ m.allFields s, soh ∉ f.2 := by
  have htype : m.msgType.toUInt8 ≠ soh := by
    cases m <;> simp only [msgType] <;> decide
  have hheader := FIXSender.soh_not_mem_headerFields hsender htarget htype
  intro f hf
  rcases List.mem_append.mp hf with hf | hf
  · exact List.forall_mem_append.mpr ⟨hheader, hfields⟩ f hf
  · rw [List.mem_singleton.mp hf]
    exact soh_not_mem_checksumDigits _

section ReadBack

variable (hsender : soh ∉ s.senderComp) (htarget : soh ∉ s.targetComp)
  (hfields : ∀ f ∈ m.fields, soh ∉ f.2) (hroom : (m.full s).length ≤ cap)
  (hholds : Holds mem buf (m.encode s cap))
include hsender htarget hfields hroom hholds

/-- A field behind the header is found and read. -/
lemma readField_encode {tag : ℕ} {value : List UInt8} (hmem : (tag, value) ∈ m.fields)
    (hlength : value.length < rbufSize) :
    FoundAtOwnField mem buf (m.encode s cap).length (m.allFields s) tag ∧
      readField mem buf (m.encode s cap).length tag = readText value := by
  have hsoh := soh_not_mem_allFields hsender htarget hfields
  rw [encode_of_room hroom, full_eq_text] at hholds ⊢
  refine foundAtOwnField_text hholds hsoh nodup_tags ?_ hlength
  exact List.mem_append_left _ (List.mem_append_right _ hmem)

/-- A 64-bit integer is read back. -/
lemma readField_encode_int (tag : ℕ) {x : ℤ} (hx : InInt64 x)
    (hmem : (tag, decimalInt (x.bmod (2 ^ 64))) ∈ m.fields) :
    FoundAtOwnField mem buf (m.encode s cap).length (m.allFields s) tag ∧
      readField mem buf (m.encode s cap).length tag = x := by
  have hlength : (decimalInt (x.bmod (2 ^ 64))).length < rbufSize :=
    (length_decimalInt_bmod_le x).trans_lt (by decide)
  have hread := readField_encode hsender htarget hfields hroom hholds hmem hlength
  rwa [readText_decimalInt hx] at hread

/-- An unsigned number is read back. -/
lemma readField_encode_unsigned (tag : ℕ) {w n : ℕ} (hw : w ≤ 64) (hn : n < 2 ^ w)
    (hmem : (tag, decimal (n % 2 ^ w)) ∈ m.fields) :
    FoundAtOwnField mem buf (m.encode s cap).length (m.allFields s) tag ∧
      toUnsigned w (readField mem buf (m.encode s cap).length tag) = n := by
  rw [Nat.mod_eq_of_lt hn] at hmem
  have hlt : n < 10 ^ 20 :=
    (hn.trans_le (Nat.pow_le_pow_right (by decide) hw)).trans (by decide)
  have hlength : (decimal n).length < rbufSize :=
    (length_decimal_le (by decide) hlt).trans_lt (by decide)
  obtain ⟨hfound, hread⟩ := readField_encode hsender htarget hfields hroom hholds hmem hlength
  exact ⟨hfound, by rw [hread, toUnsigned_readText_decimal hw hn]⟩

/-- A tag that the message does not have is not found. -/
lemma fixFindField_encode_of_not_mem {tag : ℕ}
    (hnot : tag ∉ [9, 35, 49, 56, 34] ++ m.tags ++ [10]) :
    fixFindField mem buf (m.encode s cap).length tag = none := by
  have hsoh := soh_not_mem_allFields hsender htarget hfields
  have htags : ((m.allFields s).map Prod.fst).tail = [9, 35, 49, 56, 34] ++ m.tags ++ [10] := by
    rw [map_fst_allFields]
    rfl
  rw [encode_of_room hroom, full_eq_text] at hholds ⊢
  refine fixFindField_text_of_forall_ne hholds hsoh ?_
  rintro f hf rfl
  rw [← htags] at hnot
  exact hnot (List.mem_map_of_mem hf)

end ReadBack

/-! ## The round trip -/

/-- What is read of a new order in memory is the request, and each tag is found at its own field. -/
structure ReadsNewOrder (mem : Memory) (buf len : ℕ) (s : FIXSender) (req : OrderRequest) :
    Prop where
  clOrdId : toUnsigned 64 (readField mem buf len 11) = req.strategyTsNs
  price : if req.type = .market then fixFindField mem buf len 44 = none
    else readField mem buf len 44 = req.price
  qty : readField mem buf len 38 = req.qty
  side : readField mem buf len 54 = if req.side = .buy then 1 else 2
  instrument : toUnsigned 32 (readField mem buf len 55) = req.instrumentId
  found : ∀ tag ∈ [11, 38, 54, 55] ++ (if req.type = .market then [] else [44]),
    FoundAtOwnField mem buf len ((newOrder req).allFields s) tag

/-- What is read of a change in memory is the request, and each tag is found at its own field. -/
structure ReadsModify (mem : Memory) (buf len : ℕ) (s : FIXSender) (req : ModifyRequest) :
    Prop where
  origClOrdId : toUnsigned 64 (readField mem buf len 41) = req.clientOrderId
  clOrdId : toUnsigned 64 (readField mem buf len 11) = req.clientOrderId
  price : readField mem buf len 44 = req.newPrice
  qty : readField mem buf len 38 = req.newQty
  found : ∀ tag ∈ [41, 11, 44, 38], FoundAtOwnField mem buf len ((modify req).allFields s) tag

section RoundTrip

variable (hsender : soh ∉ s.senderComp) (htarget : soh ∉ s.targetComp)
include hsender htarget

lemma readsNewOrder_encode {req : OrderRequest} (hreq : req.Representable)
    (hroom : ((newOrder req).full s).length ≤ cap)
    (hholds : Holds mem buf ((newOrder req).encode s cap)) :
    ReadsNewOrder mem buf ((newOrder req).encode s cap).length s req := by
  obtain ⟨hts, hid, hprice, hqty⟩ := hreq
  have hfields : ∀ f ∈ (newOrder req).fields, soh ∉ f.2 :=
    FIXSender.soh_not_mem_newOrderFields req
  have hint (tag : ℕ) {x : ℤ} (hx : InInt64 x) :=
    readField_encode_int hsender htarget hfields hroom hholds tag hx
  have hclOrdId := readField_encode_unsigned hsender htarget hfields hroom hholds 11
    le_rfl hts (by simp [fields, FIXSender.newOrderFields])
  have hinstrument := readField_encode_unsigned hsender htarget hfields hroom hholds 55
    (by decide) hid (by simp [fields, FIXSender.newOrderFields])
  have hqty' := hint 38 hqty (by simp [fields, FIXSender.newOrderFields])
  have hside := hint 54 (x := if req.side = .buy then 1 else 2)
    (by split_ifs <;> decide) (by simp [fields, FIXSender.newOrderFields])
  have hprice' (hmarket : req.type ≠ .market) :=
    hint 44 hprice (by simp [fields, FIXSender.newOrderFields, hmarket])
  refine ⟨hclOrdId.2, ?_, hqty'.2, hside.2, hinstrument.2, ?_⟩
  · split_ifs with hmarket
    · refine fixFindField_encode_of_not_mem hsender htarget hfields hroom hholds ?_
      simp [tags, hmarket]
    · exact (hprice' hmarket).2
  · rw [List.forall_mem_append]
    constructor
    · simp only [List.forall_mem_cons]
      exact ⟨hclOrdId.1, hqty'.1, hside.1, hinstrument.1, by simp⟩
    · split_ifs with hmarket
      · simp
      · rw [List.forall_mem_singleton]
        exact (hprice' hmarket).1

lemma readsModify_encode {req : ModifyRequest} (hreq : req.Representable)
    (hroom : ((modify req).full s).length ≤ cap)
    (hholds : Holds mem buf ((modify req).encode s cap)) :
    ReadsModify mem buf ((modify req).encode s cap).length s req := by
  obtain ⟨hid, hprice, hqty⟩ := hreq
  have hfields : ∀ f ∈ (modify req).fields, soh ∉ f.2 := FIXSender.soh_not_mem_modifyFields req
  have horig := readField_encode_unsigned hsender htarget hfields hroom hholds 41 le_rfl
    hid (by simp [fields, FIXSender.modifyFields])
  have hclOrdId := readField_encode_unsigned hsender htarget hfields hroom hholds 11
    le_rfl hid (by simp [fields, FIXSender.modifyFields])
  have hprice' := readField_encode_int hsender htarget hfields hroom hholds 44 hprice
    (by simp [fields, FIXSender.modifyFields])
  have hqty' := readField_encode_int hsender htarget hfields hroom hholds 38 hqty
    (by simp [fields, FIXSender.modifyFields])
  refine ⟨horig.2, hclOrdId.2, hprice'.2, hqty'.2, ?_⟩
  simp only [List.forall_mem_cons]
  exact ⟨horig.1, hclOrdId.1, hprice'.1, hqty'.1, by simp⟩

end RoundTrip

/-- **The round trip of FIX fields.**  Of every new order and every change that fits its buffer, of
a session whose names do not contain the separator, the values that were written are read back, and
each tag is found at its own field. -/
theorem fix_roundTrip (s : FIXSender) (mem : Memory) (buf cap : ℕ) (hsender : soh ∉ s.senderComp)
    (htarget : soh ∉ s.targetComp) :
    (∀ req : OrderRequest, req.Representable → ((newOrder req).full s).length ≤ cap →
        Holds mem buf (s.encodeNewOrder cap req) →
        ReadsNewOrder mem buf (s.encodeNewOrder cap req).length s req) ∧
      (∀ req : ModifyRequest, req.Representable → ((modify req).full s).length ≤ cap →
        Holds mem buf (s.encodeModify cap req) →
        ReadsModify mem buf (s.encodeModify cap req).length s req) :=
  ⟨fun _ hreq => readsNewOrder_encode hsender htarget hreq,
    fun _ hreq => readsModify_encode hsender htarget hreq⟩

/-- A new order with the least price there is. -/
def leastPriceOrder : OrderRequest where
  price := -2 ^ 63
  qty := 5
  strategyTsNs := 2 ^ 64 - 1

/-- The least price is read back from a buffer with zeros behind the message. -/
theorem fix_roundTrip_leastPrice :
    let bytes := exampleSession.encodeNewOrder 512 leastPriceOrder
    ReadsNewOrder (fun i => bytes.getD i 0) 0 bytes.length exampleSession leastPriceOrder :=
  (fix_roundTrip exampleSession _ 0 512 (by decide) (by decide)).1 leastPriceOrder
    ⟨by decide, by decide, by decide, by decide⟩ (by decide +kernel)
    (ByteWindow.holds_getD _ 0)

end OutMessage

end QuantTrade
