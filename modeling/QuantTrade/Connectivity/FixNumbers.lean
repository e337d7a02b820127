import QuantTrade.Connectivity.FixFields
import QuantTrade.Connectivity.FixReceive

/-!
# The numbers of FIX reports

`handle_execution_report` takes the numbers of a fill from the fields of a report.  It does not look
whether a field is there, and `fix_read_int` makes a number of any bytes.  So a fill is delivered
whenever the types of the message and of the report say so (`exists_fill`), and its numbers are
those of the report exactly when the values are decimal texts of numbers in range
(`fill_numbers_iff`).  A field at the very beginning of a report is not found by `fix_find_field`.
-/

namespace QuantTrade

open ByteWindow (Holds)
open SeparatedSearch (joined)

/-! ## Reports -/

/-- The value of the first segment with the tag. -/
def segmentValue (segments : List (List UInt8)) (tag : ℕ) : Option (List UInt8) :=
  (segments.find? fun segment => fieldKey tag <+: segment).map (List.drop (fieldKey tag).length)

/-- A report: bytes that end with a separator, cut into what is in front of each separator. -/
structure FixReport where
  first : List UInt8
  rest : List (List UInt8)
  soh_not_mem : ∀ segment ∈ first :: rest, soh ∉ segment

namespace FixReport

/-- The bytes of a report. -/
def bytes (r : FixReport) : List UInt8 :=
  joined soh (r.first :: r.rest)

/-- All bytes that end with a separator are a report. -/
lemma exists_bytes_eq (l : List UInt8) : ∃ r : FixReport, r.bytes = l ++ [soh] := by
  obtain ⟨segments, hsoh, hjoined⟩ := SeparatedSearch.exists_joined soh l
  cases segments with
  | nil => simp at hjoined
  | cons first rest => exact ⟨⟨first, rest, hsoh⟩, hjoined.symm⟩

/-- The value of a tag. -/
def value (r : FixReport) (tag : ℕ) : Option (List UInt8) :=
  segmentValue (r.first :: r.rest) tag

/-- The value of a tag when the first field is left out. -/
def valueBehind (r : FixReport) (tag : ℕ) : Option (List UInt8) :=
  segmentValue r.rest tag

/-- The report begins with the tag. -/
def BeginsWith (r : FixReport) (tag : ℕ) : Prop :=
  fieldKey tag <+: r.first

instance (r : FixReport) (tag : ℕ) : Decidable (r.BeginsWith tag) :=
  inferInstanceAs (Decidable (_ <+: _))

/-- The numbers that a tag may have: ids in tag 11 are unsigned. -/
def InRange (tag : ℕ) (x : ℤ) : Prop :=
  if tag = 11 then 0 ≤ x ∧ x < 2 ^ 64 else InInt64 x

instance (tag : ℕ) : DecidablePred (InRange tag) := by
  unfold InRange
  infer_instance

/-- The number of a tag: its value is present, and is the decimal text of a number in range. -/
def number (r : FixReport) (tag : ℕ) : Option ℤ :=
  ((r.value tag).bind decimalText?).filter fun x => InRange tag x

/-- The first bytes of the type of the message and of the type of the execution say that the report
is a fill; a value that is empty has the separator there. -/
def IsFill (r : FixReport) : Prop :=
  (r.valueBehind 35).map (·.headD soh) = some '8'.toUInt8 ∧
    ((r.valueBehind 150).map (·.headD soh) = some '1'.toUInt8 ∨
      (r.valueBehind 150).map (·.headD soh) = some '2'.toUInt8)

instance (r : FixReport) : Decidable r.IsFill :=
  inferInstanceAs (Decidable (_ ∧ _))

/-- The fill has the numbers of the report. -/
def CarriesNumbers (r : FixReport) (fill : FillEvent) : Prop :=
  r.number 11 = some (fill.clientOrderId : ℤ) ∧ r.number 31 = some fill.fillPrice ∧
    r.number 32 = some fill.fillQty ∧ r.number 151 = some fill.remainingQty

/-- What is read for a tag behind the first field, as the type of the tag. -/
def read (r : FixReport) (tag : ℕ) : ℤ :=
  let x := ((r.valueBehind tag).map readText).getD 0
  if tag = 11 then toUnsigned 64 x else x

variable {r : FixReport} {mem : Memory} {buf tag : ℕ}

/-- A tag is not found, or it is found where its value stands. -/
lemma fixFindField_cases (h : Holds mem buf r.bytes) (tag : ℕ) :
    (r.valueBehind tag = none ∧ fixFindField mem buf r.bytes.length tag = none) ∨
      ∃ value val, r.valueBehind tag = some value ∧
        fixFindField mem buf r.bytes.length tag = some val ∧ Holds mem val (value ++ [soh]) ∧
        value.length < r.bytes.length := by
  cases hfind : r.rest.find? fun segment => fieldKey tag <+: segment with
  | none =>
    refine Or.inl ⟨by rw [valueBehind, segmentValue, hfind, Option.map_none], ?_⟩
    rw [List.find?_eq_none] at hfind
    refine fixFindField_of_forall_not h r.soh_not_mem fun segment hsegment => ?_
    simpa using hfind segment hsegment
  | some segment =>
    obtain ⟨hkey, before, after, hrest, hbefore⟩ := List.find?_eq_some_iff_append.mp hfind
    obtain ⟨value, rfl⟩ := of_decide_eq_true hkey
    have hvalue : r.valueBehind tag = some value := by
      rw [valueBehind, segmentValue, hfind, Option.map_some, List.drop_left]
    have hsoh : ∀ segment ∈ r.first :: before, soh ∉ segment := by
      intro segment hsegment
      refine r.soh_not_mem segment ?_
      rw [hrest]
      exact List.mem_append_left _ hsegment
    have hnot : ∀ segment ∈ before, ¬fieldKey tag <+: segment := by
      intro segment hsegment
      simpa using hbefore segment hsegment
    have hbytes : r.bytes =
        joined soh (r.first :: (before ++ (fieldKey tag ++ value) :: after)) := by
      rw [bytes, hrest]
    rw [hbytes] at h ⊢
    obtain ⟨hfound, hholds⟩ := fixFindField_of_prefix h hsoh hnot
    refine Or.inr ⟨value, _, hvalue, hfound, hholds, ?_⟩
    rw [← List.cons_append, SeparatedSearch.joined_append, SeparatedSearch.joined_cons soh
      (fieldKey tag ++ value)]
    simp only [List.length_append, List.length_cons]
    omega

/-- What `fix_read_int` reads for a tag. -/
lemma fixReadInt_fixFindField (h : Holds mem buf r.bytes) (hlength : r.bytes.length ≤ rbufSize)
    (tag : ℕ) :
    fixReadInt mem (fixFindField mem buf r.bytes.length tag) =
      ((r.valueBehind tag).map readText).getD 0 := by
  rcases fixFindField_cases h tag with ⟨hvalue, hfound⟩ | ⟨value, val, hvalue, hfound, hholds, hlt⟩
  · rw [hvalue, hfound]
    rfl
  · rw [hvalue, hfound, fixReadInt_of_holds hholds (by omega)]
    rfl

/-- The byte at the beginning of the value of a tag. -/
lemma map_fixFindField (h : Holds mem buf r.bytes) (tag : ℕ) :
    (fixFindField mem buf r.bytes.length tag).map mem =
      (r.valueBehind tag).map (·.headD soh) := by
  rcases fixFindField_cases h tag with ⟨hvalue, hfound⟩ | ⟨value, val, hvalue, hfound, hholds, -⟩
  · rw [hvalue, hfound]
    rfl
  · rw [hvalue, hfound, Option.map_some, Option.map_some]
    cases value with
    | nil => exact congrArg some (hholds.apply_eq (i := 0) rfl)
    | cons b value => exact congrArg some (hholds.apply_eq (i := 0) rfl)

/-! ## Fills -/

/-- A report that is a fill is delivered, with what is read for its tags. -/
lemma exists_fill {s : FIXSession} (h : Holds mem buf r.bytes) (hlength : r.bytes.length ≤ rbufSize)
    (hcb : s.fillCb = true) (hfill : r.IsFill) :
    ∃ fill : FillEvent,
      (s.parseMessage mem buf r.bytes.length).reports = s.reports ++ [.fill fill] ∧
        (fill.clientOrderId : ℤ) = r.read 11 ∧ fill.fillPrice = r.read 31 ∧
        fill.fillQty = r.read 32 ∧ fill.remainingQty = r.read 151 := by
  obtain ⟨htype, hexec⟩ := hfill
  rw [← map_fixFindField h] at htype hexec
  obtain ⟨p, hp, hmsg⟩ := Option.map_eq_some_iff.mp htype
  have hexec' : ∃ q, fixFindField mem buf r.bytes.length 150 = some q ∧
      (mem q = '1'.toUInt8 ∨ mem q = '2'.toUInt8) := by
    rcases hexec with hexec | hexec
    · obtain ⟨q, hq, hbyte⟩ := Option.map_eq_some_iff.mp hexec
      exact ⟨q, hq, Or.inl hbyte⟩
    · obtain ⟨q, hq, hbyte⟩ := Option.map_eq_some_iff.mp hexec
      exact ⟨q, hq, Or.inr hbyte⟩
  obtain ⟨q, hq, hbyte⟩ := hexec'
  have hnotAck : ¬(mem q = '0'.toUInt8 ∨ mem q = '8'.toUInt8) := by
    rcases hbyte with hbyte | hbyte <;> rw [hbyte] <;> decide
  have hread := fixReadInt_fixFindField h hlength
  unfold FIXSession.parseMessage FIXSession.handleExecutionReport
  rw [hp, hq]
  dsimp only
  rw [if_pos hmsg, if_neg hnotAck, if_pos hbyte, if_pos hcb]
  refine ⟨_, rfl, ?_, ?_, ?_, ?_⟩ <;> dsimp only <;> rw [hread] <;> rfl

/-- A fill is delivered only for its type of execution, and to a callback. -/
lemma execType_of_fill {s : FIXSession} {fill : FillEvent} {len : ℕ}
    (hreports : (s.handleExecutionReport mem buf len).reports = s.reports ++ [.fill fill]) :
    s.fillCb = true ∧ ((fixFindField mem buf len 150).map mem = some '1'.toUInt8 ∨
      (fixFindField mem buf len 150).map mem = some '2'.toUInt8) := by
  have hsame : s.reports ≠ s.reports ++ [.fill fill] := by simp
  unfold FIXSession.handleExecutionReport at hreports
  cases hexec : fixFindField mem buf len 150 with
  | none =>
    rw [hexec] at hreports
    exact absurd hreports hsame
  | some q =>
    rw [hexec] at hreports
    dsimp only at hreports
    by_cases hack : mem q = '0'.toUInt8 ∨ mem q = '8'.toUInt8
    · rw [if_pos hack] at hreports
      by_cases hcb : s.ackCb = true
      · rw [if_pos hcb] at hreports
        simp at hreports
      · rw [if_neg hcb] at hreports
        exact absurd hreports hsame
    · rw [if_neg hack] at hreports
      by_cases hbyte : mem q = '1'.toUInt8 ∨ mem q = '2'.toUInt8
      · rw [if_pos hbyte] at hreports
        by_cases hcb : s.fillCb = true
        · exact ⟨hcb, hbyte.imp (congrArg some) (congrArg some)⟩
        · rw [if_neg hcb] at hreports
          exact absurd hreports hsame
      · rw [if_neg hbyte] at hreports
        exact absurd hreports hsame

/-- Only a report that is a fill is delivered as one. -/
lemma isFill_of_fill {s : FIXSession} {fill : FillEvent} (h : Holds mem buf r.bytes)
    (hreports : (s.parseMessage mem buf r.bytes.length).reports = s.reports ++ [.fill fill]) :
    s.fillCb = true ∧ r.IsFill := by
  have hsame : s.reports ≠ s.reports ++ [.fill fill] := by simp
  unfold FIXSession.parseMessage at hreports
  rw [IsFill, ← map_fixFindField h, ← map_fixFindField h]
  cases htype : fixFindField mem buf r.bytes.length 35 with
  | none =>
    rw [htype] at hreports
    exact absurd hreports hsame
  | some p =>
    rw [htype] at hreports
    dsimp only at hreports
    split_ifs at hreports with hmsg
    · obtain ⟨hcb, hexec⟩ := execType_of_fill hreports
      exact ⟨hcb, congrArg some hmsg, hexec⟩
    · exact absurd hreports hsame
    · exact absurd hreports hsame
    · exact absurd hreports hsame
    · exact absurd hreports hsame

/-! ## The numbers of a fill -/

/-- A field that the report does not begin with is behind the first. -/
lemma valueBehind_eq (hbegin : ¬r.BeginsWith tag) : r.valueBehind tag = r.value tag := by
  rw [valueBehind, value, segmentValue, segmentValue, List.find?_cons_of_neg]
  exact fun h => hbegin (of_decide_eq_true h)

/-- The decimal text of a number in range is read as the number. -/
lemma read_of_number {x : ℤ} (hnumber : r.number tag = some x) (hbegin : ¬r.BeginsWith tag) :
    r.read tag = x := by
  obtain ⟨hbind, hrange⟩ := Option.filter_eq_some_iff.mp hnumber
  obtain ⟨value, hvalue, htext⟩ := Option.bind_eq_some_iff.mp hbind
  replace hrange : InRange tag x := of_decide_eq_true hrange
  rw [read, valueBehind_eq hbegin, hvalue, Option.map_some, Option.getD_some,
    readText_of_decimalText htext]
  unfold InRange at hrange
  split_ifs at hrange ⊢ with htag
  · rw [toUnsigned]
    have hdvd : ((2 ^ 64 : ℕ) : ℤ) = 2 ^ 64 := by norm_num
    rw [← hdvd, Int.bmod_emod, hdvd, Int.emod_eq_of_lt hrange.1 hrange.2,
      Int.toNat_of_nonneg hrange.1]
  · exact hrange.bmod_eq

/-- What is read for a tag is its number. -/
lemma number_eq_some_read_iff :
    r.number tag = some (r.read tag) ↔
      ∃ x, r.number tag = some x ∧ (r.BeginsWith tag → r.read tag = x) := by
  constructor
  · exact fun h => ⟨r.read tag, h, fun _ => rfl⟩
  · rintro ⟨x, hnumber, hread⟩
    by_cases hbegin : r.BeginsWith tag
    · rw [hread hbegin, hnumber]
    · rw [read_of_number hnumber hbegin, hnumber]

/-- **The numbers of FIX reports.**  A fill that is delivered has the numbers of the report exactly
when every value is present and is the decimal text of a number in range; where the report begins
with one of the tags, what is read behind the first field must be the same number. -/
theorem fill_numbers_iff (s : FIXSession) (r : FixReport) (mem : Memory) (buf : ℕ)
    (h : Holds mem buf r.bytes) (hlength : r.bytes.length ≤ rbufSize) :
    (∀ fill, (s.parseMessage mem buf r.bytes.length).reports = s.reports ++ [.fill fill] →
        r.CarriesNumbers fill) ↔
      ¬(s.fillCb = true ∧ r.IsFill) ∨
        ∀ tag ∈ [11, 31, 32, 151],
          ∃ x, r.number tag = some x ∧ (r.BeginsWith tag → r.read tag = x) := by
  by_cases hfill : s.fillCb = true ∧ r.IsFill
  · obtain ⟨fill, hreports, hid, hprice, hqty, hremaining⟩ := exists_fill h hlength hfill.1 hfill.2
    have honly : (∀ fill', (s.parseMessage mem buf r.bytes.length).reports =
        s.reports ++ [.fill fill'] → r.CarriesNumbers fill') ↔ r.CarriesNumbers fill := by
      constructor
      · exact fun hall => hall fill hreports
      · intro hcarries fill' hreports'
        rw [hreports, List.append_cancel_left_eq] at hreports'
        cases hreports'
        exact hcarries
    rw [honly, or_iff_right (not_not.mpr hfill), CarriesNumbers, hid, hprice, hqty, hremaining]
    simp only [List.forall_mem_cons, ← number_eq_some_read_iff]
    simp
  · rw [or_iff_left_iff_imp.mpr fun _ => hfill]
    exact iff_of_true (fun fill hreports => absurd (isFill_of_fill h hreports) hfill) hfill

/-- A fill of one unit at the price `100`. -/
def wholePrice : FixReport where
  first := ascii ['8', '=', 'F', 'I', 'X', '.', '4', '.', '2']
  rest := [ascii ['3', '5', '=', '8'], ascii ['1', '5', '0', '=', '2'], ascii ['1', '1', '=', '7'],
    ascii ['3', '1', '=', '1', '0', '0'], ascii ['3', '2', '=', '1'],
    ascii ['1', '5', '1', '=', '0']]
  soh_not_mem := by decide

/-- The same fill at the price `100.5`. -/
def fractionalPrice : FixReport where
  first := wholePrice.first
  rest := wholePrice.rest.set 3 (ascii ['3', '1', '=', '1', '0', '0', '.', '5'])
  soh_not_mem := by decide

theorem fill_numbers_wholePrice :
    wholePrice.number 31 = some 100 ∧
      ∀ fill, (Receiver.activeSession.parseMessage (fun i => wholePrice.bytes.getD i 0) 0
          wholePrice.bytes.length).reports = Receiver.activeSession.reports ++ [.fill fill] →
        wholePrice.CarriesNumbers fill :=
  ⟨by decide, (fill_numbers_iff Receiver.activeSession wholePrice _ 0 (ByteWindow.holds_getD _ 0)
    (by decide)).mpr (Or.inr (by decide))⟩

/-- A fill at the price `100.5` is delivered with the price `9985`. -/
theorem fill_fractionalPrice :
    fractionalPrice.number 31 = none ∧ fractionalPrice.read 31 = 9985 ∧
      ¬∀ fill, (Receiver.activeSession.parseMessage (fun i => fractionalPrice.bytes.getD i 0) 0
          fractionalPrice.bytes.length).reports = Receiver.activeSession.reports ++ [.fill fill] →
        fractionalPrice.CarriesNumbers fill := by
  refine ⟨by decide, by decide, ?_⟩
  intro hall
  obtain ⟨fill, hreports, -⟩ := exists_fill (s := Receiver.activeSession)
    (ByteWindow.holds_getD fractionalPrice.bytes 0) (by decide) rfl (by decide)
  have hprice := (hall fill hreports).2.1
  rw [show fractionalPrice.number 31 = none by decide] at hprice
  cases hprice

end FixReport

end QuantTrade
