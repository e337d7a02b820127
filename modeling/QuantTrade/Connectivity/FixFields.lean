import Mathlib.Data.List.Find
import QuantTrade.Common.Types
import QuantTrade.Connectivity.FixEncode
import QuantTrade.Library.ByteWindow
import QuantTrade.Library.SeparatedSearch

/-!
# Finding and reading FIX fields

What `fix_find_field` and `fix_read_int` make of bytes that end with a separator.  Such bytes are
segments with a separator behind each.  A tag is found in the first segment that begins with the tag
and an equals sign, except for the very first segment, and the number that is read depends on the
rest of that segment only.  The decimal text of a number is read as that number in 64 bits
(`readText_of_decimalText`).
-/

namespace QuantTrade

open ByteWindow (Holds window)
open SeparatedSearch (joined search)

/-! ## Finding a field -/

/-- What a segment with the tag begins with. -/
def fieldKey (tag : ℕ) : List UInt8 :=
  decimal tag ++ ['='.toUInt8]

lemma fieldPattern_eq (tag : ℕ) : fieldPattern tag = soh :: fieldKey tag := rfl

lemma soh_not_mem_fieldKey (tag : ℕ) : soh ∉ fieldKey tag := by
  rw [fieldKey, List.mem_append, List.mem_singleton, not_or]
  exact ⟨soh_not_mem_decimal tag, by decide⟩

section Find

variable {mem : Memory} {buf : ℕ} {bytes first : List UInt8} {segments : List (List UInt8)}

/-- `fix_find_field` searches the bytes for its pattern. -/
lemma fixFindField_eq_search (h : Holds mem buf bytes) (tag : ℕ) :
    fixFindField mem buf bytes.length tag =
      (search (fieldPattern tag) bytes).map (buf + · + (fieldPattern tag).length) := by
  unfold fixFindField search
  dsimp only
  congr 1
  apply List.find?_congr
  intro i hi
  have hroom := List.mem_range.mp hi
  have hwindow : (List.range (fieldPattern tag).length).map (fun k => mem (buf + i + k)) =
      (bytes.drop i).take (fieldPattern tag).length := by
    rw [← h.window_eq (by omega), window, List.range'_eq_map_range, List.map_map]
    rfl
  rw [hwindow, decide_eq_decide, List.prefix_iff_eq_take]
  exact eq_comm

/-- A tag that no segment behind the first begins with is not found. -/
theorem fixFindField_of_forall_not {tag : ℕ} (h : Holds mem buf (joined soh (first :: segments)))
    (hsoh : ∀ segment ∈ first :: segments, soh ∉ segment)
    (hnot : ∀ segment ∈ segments, ¬fieldKey tag <+: segment) :
    fixFindField mem buf (joined soh (first :: segments)).length tag = none := by
  rw [fixFindField_eq_search h, fieldPattern_eq,
    SeparatedSearch.search_joined_of_forall_not (soh_not_mem_fieldKey tag) hsoh hnot,
    Option.map_none]

/-- A tag is found in the first segment behind the first that begins with it, and the value stands
there. -/
theorem fixFindField_of_prefix {tag : ℕ} {value : List UInt8} {before after : List (List UInt8)}
    (h : Holds mem buf (joined soh (first :: (before ++ (fieldKey tag ++ value) :: after))))
    (hsoh : ∀ segment ∈ first :: before, soh ∉ segment)
    (hnot : ∀ segment ∈ before, ¬fieldKey tag <+: segment) :
    let val := buf + ((joined soh (first :: before)).length + (fieldKey tag).length)
    fixFindField mem buf (joined soh (first :: (before ++ (fieldKey tag ++ value) :: after))).length
        tag = some val ∧ Holds mem val (value ++ [soh]) := by
  have hsearch : (search (soh :: fieldKey tag)
      (joined soh (first :: (before ++ (fieldKey tag ++ value) :: after)))).map (· + 1) = _ :=
    SeparatedSearch.search_joined_of_prefix (soh_not_mem_fieldKey tag) hsoh hnot
  obtain ⟨i, hi, hlength⟩ := Option.map_eq_some_iff.mp hsearch
  constructor
  · rw [fixFindField_eq_search h, fieldPattern_eq, hi, Option.map_some, List.length_cons, ← hlength]
    congr 1
    omega
  · rw [← List.cons_append, SeparatedSearch.joined_append, ByteWindow.holds_append] at h
    have hsegment := h.2
    rw [SeparatedSearch.joined_cons soh (fieldKey tag ++ value), List.append_assoc,
      ByteWindow.holds_append, List.append_cons, ByteWindow.holds_append,
      Nat.add_assoc] at hsegment
    exact hsegment.2.1

end Find

/-! ## Reading a number -/

/-- The number that `fix_read_int` makes of a value. -/
def readText : List UInt8 → ℤ
  | [] => 0
  | b :: bs =>
    if b = '-'.toUInt8 then (-fixReadDigits bs 0).bmod (2 ^ 64) else fixReadDigits (b :: bs) 0

/-- The loop stops at the separator. -/
lemma fixReadDigits_append (value rest : List UInt8) (result : ℤ) :
    fixReadDigits (value ++ soh :: rest) result = fixReadDigits value result := by
  induction value generalizing result with
  | nil => simp [fixReadDigits]
  | cons b value ih => rw [List.cons_append, fixReadDigits, fixReadDigits, ih]

/-- What is read depends on the value only. -/
theorem fixReadInt_of_holds {mem : Memory} {val : ℕ} {value : List UInt8}
    (h : Holds mem val (value ++ [soh])) (hlength : value.length < rbufSize) :
    fixReadInt mem (some val) = readText value := by
  have hsplit : rbufSize = (value ++ [soh]).length + (rbufSize - (value ++ [soh]).length) := by
    rw [List.length_append, List.length_singleton]
    omega
  have hbytes : (List.range' val rbufSize).map mem =
      value ++ soh :: window mem (val + (value ++ [soh]).length)
        (rbufSize - (value ++ [soh]).length) := by
    change window mem val rbufSize = _
    conv_lhs => rw [hsplit]
    rw [ByteWindow.window_append, h, List.append_assoc, List.singleton_append]
  unfold fixReadInt
  dsimp only
  rw [hbytes]
  cases value with
  | nil =>
    have hmem : mem val = soh := h.apply_eq (i := 0) rfl
    rw [hmem, if_neg (by decide), fixReadDigits_append, readText, fixReadDigits]
  | cons b value =>
    have hmem : mem val = b := h.apply_eq (i := 0) rfl
    rw [hmem, readText, List.cons_append, List.tail_cons, fixReadDigits_append,
      ← List.cons_append, fixReadDigits_append]

/-! ## Decimal texts -/

/-- The number that some digits stand for, when there are digits and nothing else. -/
def digitsText? (digits : List UInt8) : Option ℕ :=
  if digits ≠ [] ∧ digits.all isDigit then some (readDecimal digits) else none

/-- The number with a decimal text: perhaps a minus sign, and digits. -/
def decimalText? : List UInt8 → Option ℤ
  | [] => none
  | b :: bs =>
    if b = '-'.toUInt8 then (digitsText? bs).map fun n : ℕ => -(n : ℤ)
    else (digitsText? (b :: bs)).map Nat.cast

/-- Digits are read by Horner's rule. -/
lemma fixReadDigits_eq {digits : List UInt8} (h : digits.all isDigit = true) (n : ℕ) :
    fixReadDigits digits ((n : ℤ).bmod (2 ^ 64)) =
      (Nat.ofDigitChars 10 (digits.map fun b => Char.ofNat b.toNat) n : ℤ).bmod (2 ^ 64) := by
  induction digits generalizing n with
  | nil => rfl
  | cons b digits ih =>
    rw [List.all_cons, Bool.and_eq_true] at h
    obtain ⟨hlower, hupper⟩ := isDigit_iff.mp h.1
    have hstop : ¬(b = 0 ∨ b = soh) := by
      rintro (rfl | rfl)
      · exact absurd hlower (by decide)
      · exact absurd hlower (by decide)
    have hchar : (Char.ofNat b.toNat).toNat = b.toNat := by
      rw [Char.ofNat, dif_pos (Or.inl (by omega))]
      rfl
    have hstep : ((n : ℤ).bmod (2 ^ 64) * 10 + (b.toNat - 48)).bmod (2 ^ 64) =
        ((10 * n + ((Char.ofNat b.toNat).toNat - '0'.toNat) : ℕ) : ℤ).bmod (2 ^ 64) := by
      rw [← Int.bmod_add_bmod, Int.bmod_mul_bmod, Int.bmod_add_bmod, hchar]
      congr 1
      have hzero : '0'.toNat = 48 := rfl
      push_cast [hzero, hlower]
      ring
    rw [fixReadDigits, if_neg hstop, hstep, ih h.2, List.map_cons, Nat.ofDigitChars_cons]

lemma fixReadDigits_of_digitsText {digits : List UInt8} {n : ℕ} (h : digitsText? digits = some n) :
    fixReadDigits digits 0 = (n : ℤ).bmod (2 ^ 64) := by
  obtain ⟨hdigits, hn⟩ := Option.ite_none_right_eq_some.mp h
  rw [← Option.some.inj hn]
  exact fixReadDigits_eq hdigits.2 0

/-- **Decimal texts.**  What is read of the decimal text of a number is the number in 64 bits. -/
theorem readText_of_decimalText {value : List UInt8} {x : ℤ} (h : decimalText? value = some x) :
    readText value = x.bmod (2 ^ 64) := by
  cases value with
  | nil => cases h
  | cons b bs =>
    rw [decimalText?] at h
    rw [readText]
    split_ifs at h ⊢ with hminus
    · obtain ⟨n, hn, rfl⟩ := Option.map_eq_some_iff.mp h
      rw [fixReadDigits_of_digitsText hn, Int.bmod_neg_bmod]
    · obtain ⟨n, hn, rfl⟩ := Option.map_eq_some_iff.mp h
      exact fixReadDigits_of_digitsText hn

/-- The digits of a number stand for it. -/
lemma digitsText_decimal (n : ℕ) : digitsText? (decimal n) = some n := by
  have hdigits : (decimal n).all isDigit = true :=
    List.all_eq_true.mpr fun _ hb => isDigit_of_mem_decimal hb
  have hne : decimal n ≠ [] := List.length_pos_iff.mp (length_decimal_pos n)
  rw [digitsText?, if_pos ⟨hne, hdigits⟩, readDecimal_decimal]

/-- A list of digits does not begin with a minus sign. -/
lemma decimalText_of_digitsText {digits : List UInt8} {n : ℕ} (h : digitsText? digits = some n) :
    decimalText? digits = some (n : ℤ) := by
  cases digits with
  | nil => cases h
  | cons b bs =>
    obtain ⟨hdigits, -⟩ := Option.ite_none_right_eq_some.mp h
    have hb := (Bool.and_eq_true_iff.mp hdigits.2).1
    have hne : b ≠ '-'.toUInt8 := by
      rintro rfl
      exact absurd hb (by decide)
    rw [decimalText?, if_neg hne, h]
    rfl

/-- An integer is printed as its decimal text. -/
theorem decimalText_decimalInt (x : ℤ) : decimalText? (decimalInt x) = some x := by
  unfold decimalInt
  split_ifs with hneg
  · rw [decimalText?, if_pos rfl, digitsText_decimal, Option.map_some]
    congr 1
    omega
  · rw [decimalText_of_digitsText (digitsText_decimal _)]
    congr 1
    omega

end QuantTrade
