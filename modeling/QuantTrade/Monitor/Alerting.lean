import Mathlib.Data.List.Basic
import QuantTrade.Library.Json

/-!
# Alerts

The text that `Alerting` of `src/monitor/alerting.cpp` posts for an alert.  It is built byte by
byte: `json_append_escaped` looks at the bytes of a string one at a time, and all bytes of a
character that is not ASCII stand for themselves.  So on valid UTF-8 it does the same as escaping
characters (`flatMap_escapeByte`), the text is JSON, and its value gives back what went into it
(`buildJson_round_trip`).
-/

namespace QuantTrade

/-- `AlertLevel`. -/
inductive AlertLevel where
  | info
  | warn
  | critical
  deriving DecidableEq, Repr

namespace Alerting

/-- The bytes of a string. -/
def utf8 (s : String) : List UInt8 :=
  s.toByteArray.data.toList

/-- `level_str`; its default branch is for numbers that are not a level. -/
def levelStr : AlertLevel → String
  | .info => "INFO"
  | .warn => "WARN"
  | .critical => "CRITICAL"

/-- `%04x`. -/
def hex04 (n : ℕ) : List Char :=
  (Nat.toDigits 16 n).leftpad 4 '0'

/-- One round of the loop of `json_append_escaped`: what is appended for a byte. -/
def escapeByte (c : UInt8) : List UInt8 :=
  if c = 0x22 then utf8 "\\\""
  else if c = 0x5c then utf8 "\\\\"
  else if c = 0x08 then utf8 "\\b"
  else if c = 0x0c then utf8 "\\f"
  else if c = 0x0a then utf8 "\\n"
  else if c = 0x0d then utf8 "\\r"
  else if c = 0x09 then utf8 "\\t"
  else if c < 0x20 then utf8 (String.ofList ('\\' :: 'u' :: hex04 c.toNat))
  else [c]

/-- `json_append_escaped`. -/
def jsonAppendEscaped (out s : List UInt8) : List UInt8 :=
  s.foldl (fun out c => out ++ escapeByte c) out

/-- `build_json`. -/
def buildJson (level : AlertLevel) (name message : List UInt8) (tsNs : UInt64) : List UInt8 :=
  let j := utf8 "\x7b\"level\":\""
  let j := j ++ utf8 (levelStr level)
  let j := j ++ utf8 "\",\"name\":\""
  let j := jsonAppendEscaped j name
  let j := j ++ utf8 "\",\"message\":\""
  let j := jsonAppendEscaped j message
  let j := j ++ utf8 "\",\"ts_ns\":"
  let j := j ++ utf8 (Nat.repr tsNs.toNat)
  j ++ utf8 "\x7d"

/-! ## Bytes and characters -/

lemma utf8_append (s t : String) : utf8 (s ++ t) = utf8 s ++ utf8 t := by
  rw [utf8, String.toByteArray_append, ByteArray.data_append, Array.toList_append]
  rfl

lemma utf8_ofList (l : List Char) : utf8 (String.ofList l) = l.flatMap String.utf8EncodeChar := by
  rw [utf8, String.toByteArray_ofList, List.utf8Encode, List.toList_data_toByteArray]

lemma utf8_eq_flatMap (s : String) : utf8 s = s.toList.flatMap String.utf8EncodeChar := by
  rw [← utf8_ofList, String.ofList_toList]

lemma utf8_inj {s t : String} : utf8 s = utf8 t ↔ s = t := by
  rw [utf8, utf8, Array.toList_inj, ← ByteArray.ext_iff, String.toByteArray_inj]

/-- What the escapes of the bytes of a character amount to. -/
def escapeChar (c : Char) : List Char :=
  if c = '"' then ['\\', '"']
  else if c = '\\' then ['\\', '\\']
  else if c = '\x08' then ['\\', 'b']
  else if c = '\x0c' then ['\\', 'f']
  else if c = '\n' then ['\\', 'n']
  else if c = '\r' then ['\\', 'r']
  else if c = '\t' then ['\\', 't']
  else if c.toNat < 0x20 then '\\' :: 'u' :: hex04 c.toNat
  else [c]

/-- The bytes of a character that is not ASCII are not ASCII. -/
lemma le_of_mem_utf8EncodeChar {c : Char} (hc : 0x80 ≤ c.toNat) {b : UInt8}
    (hb : b ∈ String.utf8EncodeChar c) : 0x80 ≤ b.toNat := by
  have hval : c.val.toNat = c.toNat := rfl
  unfold String.utf8EncodeChar at hb
  dsimp only at hb
  rw [hval] at hb
  split_ifs at hb
  · omega
  all_goals
    simp only [List.mem_cons, List.not_mem_nil, or_false] at hb
    rcases hb with rfl | rfl | rfl | rfl <;> rw [UInt8.toNat_ofNat'] <;> omega

/-- A byte that is not ASCII stands for itself. -/
lemma escapeByte_of_le {b : UInt8} (hb : 0x80 ≤ b.toNat) : escapeByte b = [b] := by
  have hne : ∀ d : UInt8, d.toNat < 0x80 → b ≠ d := by
    rintro d hd rfl
    omega
  have hlt : ¬b < 0x20 := by
    rw [UInt8.lt_iff_toNat_lt]
    exact Nat.not_lt.mpr (Nat.le_trans (by decide) hb)
  rw [escapeByte, if_neg (hne _ (by decide)), if_neg (hne _ (by decide)),
    if_neg (hne _ (by decide)), if_neg (hne _ (by decide)), if_neg (hne _ (by decide)),
    if_neg (hne _ (by decide)), if_neg (hne _ (by decide)), if_neg hlt]

/-- On ASCII the bytes are the characters. -/
lemma escapeByte_ascii : ∀ n < 0x80,
    escapeByte (UInt8.ofNat n) = (escapeChar (Char.ofNat n)).flatMap String.utf8EncodeChar := by
  decide +kernel

/-- The bytes of a character are escaped like the character. -/
lemma flatMap_escapeByte_utf8EncodeChar (c : Char) :
    (String.utf8EncodeChar c).flatMap escapeByte =
      (escapeChar c).flatMap String.utf8EncodeChar := by
  rcases Nat.lt_or_ge c.toNat 0x80 with hlt | hge
  · have hencode : String.utf8EncodeChar c = [UInt8.ofNat c.toNat] :=
      if_pos (Nat.le_of_lt_succ hlt)
    rw [hencode, List.flatMap_singleton, escapeByte_ascii _ hlt, Char.ofNat_toNat]
  · have hne : ∀ d : Char, d.toNat < 0x80 → c ≠ d := by
      rintro d hd rfl
      omega
    have hescape : escapeChar c = [c] := by
      rw [escapeChar, if_neg (hne _ (by decide)), if_neg (hne _ (by decide)),
        if_neg (hne _ (by decide)), if_neg (hne _ (by decide)), if_neg (hne _ (by decide)),
        if_neg (hne _ (by decide)), if_neg (hne _ (by decide)), if_neg (by omega)]
    rw [hescape, List.flatMap_singleton]
    calc (String.utf8EncodeChar c).flatMap escapeByte
        = (String.utf8EncodeChar c).flatMap fun b => [b] :=
          List.flatMap_congr fun b hb => escapeByte_of_le (le_of_mem_utf8EncodeChar hge hb)
      _ = String.utf8EncodeChar c := List.flatMap_singleton' _

/-- The characters of a string, escaped. -/
def escaped (s : String) : String :=
  String.ofList (s.toList.flatMap escapeChar)

/-- **Bytes and characters.**  Escaping the bytes of a string is escaping its characters. -/
theorem flatMap_escapeByte (s : String) : (utf8 s).flatMap escapeByte = utf8 (escaped s) := by
  rw [escaped, utf8_ofList, utf8_eq_flatMap, List.flatMap_assoc, List.flatMap_assoc]
  exact List.flatMap_congr fun c _ => flatMap_escapeByte_utf8EncodeChar c

lemma jsonAppendEscaped_eq (out : List UInt8) (s : String) :
    jsonAppendEscaped out (utf8 s) = out ++ utf8 (escaped s) := by
  rw [← flatMap_escapeByte, jsonAppendEscaped]
  induction utf8 s generalizing out with
  | nil => rw [List.foldl_nil, List.flatMap_nil, List.append_nil]
  | cons b bs ih => rw [List.foldl_cons, ih, List.flatMap_cons, List.append_assoc]

/-- The text of an alert. -/
def alertText (level : AlertLevel) (name message : String) (tsNs : UInt64) : String :=
  "\x7b\"level\":\"" ++ levelStr level ++ "\",\"name\":\"" ++ escaped name ++
    "\",\"message\":\"" ++ escaped message ++ "\",\"ts_ns\":" ++ Nat.repr tsNs.toNat ++ "\x7d"

/-- `build_json` writes the text of the alert. -/
theorem buildJson_eq (level : AlertLevel) (name message : String) (tsNs : UInt64) :
    buildJson level (utf8 name) (utf8 message) tsNs = utf8 (alertText level name message tsNs) := by
  delta alertText
  simp only [utf8_append]
  rw [← jsonAppendEscaped_eq, ← jsonAppendEscaped_eq]
  rfl

/-! ## The value of the text -/

/-- The escape of a control character that has no short one. -/
lemma readHex4_hex04 : ∀ n < 0x20, Json.readHex4 (hex04 n) = some (n, []) := by
  decide

/-- An escaped character stands for the character. -/
lemma chars_escapeChar_append (c : Char) {t s : List Char} (h : Json.Chars t s) :
    Json.Chars (escapeChar c ++ t) (c :: s) := by
  have hshort : ∀ e d, Json.shortEscape? e = some d → c = d →
      Json.Chars ('\\' :: e :: t) (c :: s) := by
    rintro e d hescape rfl
    exact .short hescape h
  unfold escapeChar
  split_ifs with h1 h2 h3 h4 h5 h6 h7 hcontrol
  · exact hshort '"' _ (by decide) h1
  · exact hshort '\\' _ (by decide) h2
  · exact hshort 'b' _ (by decide) h3
  · exact hshort 'f' _ (by decide) h4
  · exact hshort 'n' _ (by decide) h5
  · exact hshort 'r' _ (by decide) h6
  · exact hshort 't' _ (by decide) h7
  · obtain ⟨a, b, d, e, hhex, hunit⟩ := Json.readHex4_eq_some (readHex4_hex04 _ hcontrol)
    have hchar : Char.ofNat c.toNat = c := Char.ofNat_toNat c
    rw [hhex]
    have hunit := Json.Chars.unit hunit (Json.isHigh_of_lt (by omega))
      (Json.isLow_of_lt (by omega)) h
    rwa [hchar] at hunit
  · exact .plain (Json.isPlain_iff.mpr ⟨Nat.not_lt.mp hcontrol, h1, h2⟩) h

lemma chars_flatMap_escapeChar (s : List Char) : Json.Chars (s.flatMap escapeChar) s := by
  induction s with
  | nil => exact .nil
  | cons c s ih => exact chars_escapeChar_append c ih

lemma chars_escaped (s : String) : Json.Chars (escaped s).toList s.toList := by
  rw [escaped, String.toList_ofList]
  exact chars_flatMap_escapeChar s.toList

/-- Characters that stand for themselves. -/
lemma chars_of_isPlain {s : List Char} (h : s.all Json.isPlain = true) : Json.Chars s s := by
  induction s with
  | nil => exact .nil
  | cons c s ih =>
    rw [List.all_cons, Bool.and_eq_true] at h
    exact .plain h.1 (ih h.2)

/-- A number does not begin with 0 unless it is 0. -/
lemma head?_toDigits {n : ℕ} (hn : n ≠ 0) : (Nat.toDigits 10 n).head? ≠ some '0' := by
  induction n using Nat.strongRecOn with
  | ind n ih =>
    rcases Nat.lt_or_ge n 10 with hlt | hge
    · rw [Nat.toDigits_of_lt_base hlt, List.head?_cons, ne_eq, Option.some_inj]
      have hdigit : ∀ m < 10, m ≠ 0 → m.digitChar ≠ '0' := by decide +kernel
      exact hdigit n hlt hn
    · rw [Nat.toDigits_of_base_le (by decide) hge, List.head?_append_of_ne_nil]
      · exact ih (n / 10) (by omega) (by omega)
      · exact Nat.toDigits_ne_nil

/-- The decimal digits of a number are a JSON number. -/
lemma numberText_toDigits (n : ℕ) : Json.NumberText (Nat.toDigits 10 n) n 0 := by
  have hdigits : Json.Digits (Nat.toDigits 10 n) :=
    ⟨Nat.toDigits_ne_nil, fun c hc => Nat.isDigit_of_mem_toDigits (by decide) (by decide) hc⟩
  have hint : Json.IntText (Nat.toDigits 10 n) := by
    refine ⟨hdigits, fun hhead => ?_⟩
    by_cases hn : n = 0
    · rw [hn, Nat.toDigits_zero]
    · exact absurd hhead (head?_toDigits hn)
  have hmk := Json.UnsignedText.mk hint .absent .absent
  simp only [List.append_nil, Nat.ofDigitChars_ten_toDigits, List.length_nil] at hmk
  exact .pos hmk

/-- What an alert says. -/
def alertValue (level : AlertLevel) (name message : String) (tsNs : UInt64) : Json.Value :=
  .obj [("level".toList, .str (levelStr level).toList), ("name".toList, .str name.toList),
    ("message".toList, .str message.toList), ("ts_ns".toList, .num tsNs.toNat 0)]

/-- The text of an alert is JSON and says what the alert says. -/
theorem document_alertText (level : AlertLevel) (name message : String) (tsNs : UInt64) :
    Json.Document (alertText level name message tsNs).toList
      (alertValue level name message tsNs) := by
  have hlevel :
      Json.StringText ('"' :: ((levelStr level).toList ++ ['"'])) (levelStr level).toList :=
    ⟨_, chars_of_isPlain (by cases level <;> decide +kernel), rfl⟩
  have hname : Json.StringText ('"' :: ((escaped name).toList ++ ['"'])) name.toList :=
    ⟨_, chars_escaped name, rfl⟩
  have hmessage : Json.StringText ('"' :: ((escaped message).toList ++ ['"'])) message.toList :=
    ⟨_, chars_escaped message, rfl⟩
  have hts : Json.Derives (.value (.num tsNs.toNat 0)) (Nat.repr tsNs.toNat).toList := by
    rw [Nat.repr_eq_ofList_toDigits, String.toList_ofList]
    exact .num (numberText_toDigits _)
  have hkey : ∀ key : String, key.toList.all Json.isPlain = true →
      Json.StringText ('"' :: (key.toList ++ ['"'])) key.toList :=
    fun key h => ⟨_, chars_of_isPlain h, rfl⟩
  have hmembers := Json.Derives.member_tight (hkey "level" (by decide +kernel)) (.str hlevel)
    (Json.Derives.member_tight (hkey "name" (by decide +kernel)) (.str hname)
      (Json.Derives.member_tight (hkey "message" (by decide +kernel)) (.str hmessage)
        (Json.Derives.lastMember_tight (hkey "ts_ns" (by decide +kernel)) hts)))
  refine ⟨[], _, [], Json.ws_nil, .obj hmembers, Json.ws_nil, ?_⟩
  have hopen : "\x7b\"level\":\"".toList = '{' :: '"' :: ("level".toList ++ ['"', ':', '"']) := by
    decide
  have hsecond : "\",\"name\":\"".toList =
      '"' :: ',' :: '"' :: ("name".toList ++ ['"', ':', '"']) := by
    decide
  have hthird : "\",\"message\":\"".toList =
      '"' :: ',' :: '"' :: ("message".toList ++ ['"', ':', '"']) := by
    decide
  have hfourth : "\",\"ts_ns\":".toList = '"' :: ',' :: '"' :: ("ts_ns".toList ++ ['"', ':']) := by
    decide
  have hclose : "\x7d".toList = ['}'] := by
    decide
  delta alertText
  simp only [String.toList_append, hopen, hsecond, hthird, hfourth, hclose,
    List.append_assoc, List.cons_append, List.nil_append, List.append_nil]

lemma levelStr_injective {level level' : AlertLevel} (h : levelStr level = levelStr level') :
    level = level' := by
  cases level <;> cases level' <;> first | rfl | exact absurd h (by decide)

lemma alertValue_injective {level level' : AlertLevel} {name name' message message' : String}
    {tsNs tsNs' : UInt64}
    (h : alertValue level name message tsNs = alertValue level' name' message' tsNs') :
    level = level' ∧ name = name' ∧ message = message' ∧ tsNs = tsNs' := by
  simp only [alertValue, Json.Value.obj.injEq, List.cons.injEq, Prod.mk.injEq,
    Json.Value.str.injEq, Json.Value.num.injEq, true_and, and_true, String.toList_inj,
    Int.natCast_inj, UInt64.toNat_inj] at h
  exact ⟨levelStr_injective h.1, h.2⟩

/-- **Round trip.**  For any level, any name and message in valid UTF-8 and any time stamp,
`build_json` writes the UTF-8 of a text that is JSON and has one value: the object with the keys
`level`, `name`, `message` and `ts_ns`, in this order and no others, whose strings are those that
went in and whose number is the time stamp.  Different alerts have different texts. -/
theorem buildJson_round_trip (level : AlertLevel) (name message : String) (tsNs : UInt64) :
    (∃ text : String, utf8 text = buildJson level (utf8 name) (utf8 message) tsNs ∧
      ∀ v, Json.Document text.toList v ↔
        v = .obj [("level".toList, .str (levelStr level).toList), ("name".toList, .str name.toList),
          ("message".toList, .str message.toList), ("ts_ns".toList, .num tsNs.toNat 0)]) ∧
    ∀ level' name' message' tsNs',
      buildJson level (utf8 name) (utf8 message) tsNs =
          buildJson level' (utf8 name') (utf8 message') tsNs' →
        level = level' ∧ name = name' ∧ message = message' ∧ tsNs = tsNs' := by
  have hdoc := document_alertText level name message tsNs
  refine ⟨⟨alertText level name message tsNs, (buildJson_eq ..).symm, fun v => ?_⟩, ?_⟩
  · constructor
    · intro hv
      exact hv.unique hdoc
    · rintro rfl
      exact hdoc
  · intro level' name' message' tsNs' heq
    have hdoc' := document_alertText level' name' message' tsNs'
    rw [buildJson_eq, buildJson_eq, utf8_inj] at heq
    rw [← heq] at hdoc'
    exact alertValue_injective (hdoc.unique hdoc')

example : buildJson .warn (utf8 "a\"\n") (utf8 "é\x01") 42 =
    utf8 ("\x7b\"level\":\"WARN\",\"name\":\"a\\\"\\n\"," ++
      "\"message\":\"é\\u0001\",\"ts_ns\":42\x7d") := by
  decide +kernel

end Alerting

end QuantTrade
