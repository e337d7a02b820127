import Mathlib.Data.Int.Notation
import Mathlib.Data.List.Basic
import Mathlib.Tactic.Common

/-!
# JSON texts

The grammar of JSON (`Derives`): which texts are JSON, and which value each of them stands for.  A
string stands for its characters, with the escapes replaced by what they mean; an escape for half of
a surrogate pair means nothing.  A number stands for an integer times a power of ten.  The members
of an object are kept in order, with repeated keys.

`read` computes the value of a text.  It finds the value of every text of the grammar
(`read_of_derives`), so a text has no other value (`Document.unique`).
-/

namespace Json

/-- What a text stands for.  A number is `mantissa * 10 ^ exponent`. -/
inductive Value where
  | null
  | bool (b : Bool)
  | num (mantissa exponent : ℤ)
  | str (s : List Char)
  | arr (elements : List Value)
  | obj (members : List (List Char × Value))

/-! ## The grammar of strings -/

/-- White space. -/
def isWs (c : Char) : Bool :=
  c = ' ' || c = '\t' || c = '\n' || c = '\r'

/-- A text of white space. -/
def Ws (t : List Char) : Prop :=
  ∀ c ∈ t, isWs c = true

/-- A character that stands for itself in a string. -/
def isPlain (c : Char) : Bool :=
  0x20 ≤ c.toNat && c ≠ '"' && c ≠ '\\'

/-- The character that a backslash and another character stand for. -/
def shortEscape? (e : Char) : Option Char :=
  [('"', '"'), ('\\', '\\'), ('/', '/'), ('b', '\x08'), ('f', '\x0c'), ('n', '\n'), ('r', '\r'),
    ('t', '\t')].lookup e

/-- The value of a hexadecimal digit. -/
def hexDigit? (c : Char) : Option ℕ :=
  if '0' ≤ c ∧ c ≤ '9' then some (c.toNat - '0'.toNat)
  else if 'a' ≤ c ∧ c ≤ 'f' then some (c.toNat - 'a'.toNat + 10)
  else if 'A' ≤ c ∧ c ≤ 'F' then some (c.toNat - 'A'.toNat + 10)
  else none

/-- The code unit of four hexadecimal digits. -/
def hex4? (a b c d : Char) : Option ℕ := do
  let a ← hexDigit? a
  let b ← hexDigit? b
  let c ← hexDigit? c
  let d ← hexDigit? d
  some (16 * (16 * (16 * a + b) + c) + d)

/-- The first unit of a surrogate pair. -/
def isHigh (u : ℕ) : Bool :=
  0xd800 ≤ u && u < 0xdc00

/-- The second unit of a surrogate pair. -/
def isLow (u : ℕ) : Bool :=
  0xdc00 ≤ u && u < 0xe000

lemma isPlain_iff {c : Char} : isPlain c = true ↔ 0x20 ≤ c.toNat ∧ c ≠ '"' ∧ c ≠ '\\' := by
  simp [isPlain, and_assoc]

/-- A unit below the surrogates is not part of a pair. -/
lemma isHigh_of_lt {u : ℕ} (hu : u < 0xd800) : isHigh u = false := by
  rw [isHigh, decide_eq_false (Nat.not_le.mpr hu), Bool.false_and]

lemma isLow_of_lt {u : ℕ} (hu : u < 0xd800) : isLow u = false := by
  rw [isLow, decide_eq_false (by omega), Bool.false_and]

/-- The character of a surrogate pair. -/
def pairChar (high low : ℕ) : Char :=
  Char.ofNat (0x10000 + (high - 0xd800) * 0x400 + (low - 0xdc00))

/-- The text between the quotes of a string, and the characters it stands for. -/
inductive Chars : List Char → List Char → Prop
  | nil : Chars [] []
  | plain {c : Char} {t s : List Char} : isPlain c = true → Chars t s → Chars (c :: t) (c :: s)
  | short {e c : Char} {t s : List Char} :
      shortEscape? e = some c → Chars t s → Chars ('\\' :: e :: t) (c :: s)
  | unit {a b c d : Char} {u : ℕ} {t s : List Char} :
      hex4? a b c d = some u → isHigh u = false → isLow u = false → Chars t s →
        Chars ('\\' :: 'u' :: a :: b :: c :: d :: t) (Char.ofNat u :: s)
  | pair {a b c d a' b' c' d' : Char} {high low : ℕ} {t s : List Char} :
      hex4? a b c d = some high → isHigh high = true →
      hex4? a' b' c' d' = some low → isLow low = true → Chars t s →
        Chars ('\\' :: 'u' :: a :: b :: c :: d :: '\\' :: 'u' :: a' :: b' :: c' :: d' :: t)
          (pairChar high low :: s)

/-- A string with its quotes. -/
def StringText (t s : List Char) : Prop :=
  ∃ body, Chars body s ∧ t = '"' :: (body ++ ['"'])

/-! ## The grammar of numbers -/

/-- At least one digit. -/
def Digits (t : List Char) : Prop :=
  t ≠ [] ∧ ∀ c ∈ t, c.isDigit = true

/-- An integer without a sign: it does not begin with 0 unless it is 0. -/
def IntText (t : List Char) : Prop :=
  Digits t ∧ (t.head? = some '0' → t = ['0'])

/-- The fraction of a number and its digits. -/
inductive FracText : List Char → List Char → Prop
  | absent : FracText [] []
  | present {digits : List Char} : Digits digits → FracText ('.' :: digits) digits

/-- The exponent of a number and its value. -/
inductive ExpText : List Char → ℤ → Prop
  | absent : ExpText [] 0
  | unsigned {e : Char} {digits : List Char} : e = 'e' ∨ e = 'E' → Digits digits →
      ExpText (e :: digits) (Nat.ofDigitChars 10 digits 0)
  | plus {e : Char} {digits : List Char} : e = 'e' ∨ e = 'E' → Digits digits →
      ExpText (e :: '+' :: digits) (Nat.ofDigitChars 10 digits 0)
  | minus {e : Char} {digits : List Char} : e = 'e' ∨ e = 'E' → Digits digits →
      ExpText (e :: '-' :: digits) (-(Nat.ofDigitChars 10 digits 0 : ℤ))

/-- A number without a sign. -/
inductive UnsignedText : List Char → ℕ → ℤ → Prop
  | mk {int frac digits exp : List Char} {x : ℤ} :
      IntText int → FracText frac digits → ExpText exp x →
        UnsignedText (int ++ (frac ++ exp)) (Nat.ofDigitChars 10 (int ++ digits) 0)
          (x - digits.length)

/-- A number. -/
inductive NumberText : List Char → ℤ → ℤ → Prop
  | pos {t : List Char} {m : ℕ} {x : ℤ} : UnsignedText t m x → NumberText t m x
  | neg {t : List Char} {m : ℕ} {x : ℤ} : UnsignedText t m x → NumberText ('-' :: t) (-m) x

/-! ## The grammar of values -/

/-- What is derived: a value, or what stands in an array or in an object that is not empty. -/
inductive Phrase where
  | value (v : Value)
  | elements (vs : List Value)
  | members (ms : List (List Char × Value))

/-- The texts of a phrase. -/
inductive Derives : Phrase → List Char → Prop
  | nullLit : Derives (.value .null) ['n', 'u', 'l', 'l']
  | trueLit : Derives (.value (.bool true)) ['t', 'r', 'u', 'e']
  | falseLit : Derives (.value (.bool false)) ['f', 'a', 'l', 's', 'e']
  | num {t : List Char} {m x : ℤ} : NumberText t m x → Derives (.value (.num m x)) t
  | str {t s : List Char} : StringText t s → Derives (.value (.str s)) t
  | emptyArr {w : List Char} : Ws w → Derives (.value (.arr [])) ('[' :: (w ++ [']']))
  | arr {vs : List Value} {t : List Char} :
      Derives (.elements vs) t → Derives (.value (.arr vs)) ('[' :: (t ++ [']']))
  | emptyObj {w : List Char} : Ws w → Derives (.value (.obj [])) ('{' :: (w ++ ['}']))
  | obj {ms : List (List Char × Value)} {t : List Char} :
      Derives (.members ms) t → Derives (.value (.obj ms)) ('{' :: (t ++ ['}']))
  | lastElement {v : Value} {w t w' : List Char} :
      Ws w → Derives (.value v) t → Ws w' → Derives (.elements [v]) (w ++ (t ++ w'))
  | element {v : Value} {vs : List Value} {w t w' t' : List Char} :
      Ws w → Derives (.value v) t → Ws w' → Derives (.elements vs) t' →
        Derives (.elements (v :: vs)) (w ++ (t ++ (w' ++ ',' :: t')))
  | lastMember {key : List Char} {v : Value} {w k w₁ w₂ t w₃ : List Char} :
      Ws w → StringText k key → Ws w₁ → Ws w₂ → Derives (.value v) t → Ws w₃ →
        Derives (.members [(key, v)]) (w ++ (k ++ (w₁ ++ ':' :: (w₂ ++ (t ++ w₃)))))
  | member {key : List Char} {v : Value} {ms : List (List Char × Value)}
      {w k w₁ w₂ t w₃ t' : List Char} :
      Ws w → StringText k key → Ws w₁ → Ws w₂ → Derives (.value v) t → Ws w₃ →
      Derives (.members ms) t' →
        Derives (.members ((key, v) :: ms))
          (w ++ (k ++ (w₁ ++ ':' :: (w₂ ++ (t ++ (w₃ ++ ',' :: t'))))))

/-- A JSON text and its value. -/
def Document (t : List Char) (v : Value) : Prop :=
  ∃ w body w', Ws w ∧ Derives (.value v) body ∧ Ws w' ∧ t = w ++ (body ++ w')

lemma ws_nil : Ws [] :=
  fun _ h => absurd h List.not_mem_nil

section Tight

variable {key k t t' : List Char} {v : Value} {ms : List (List Char × Value)}

/-- The last member of an object, without white space. -/
lemma Derives.lastMember_tight (hk : StringText k key) (h : Derives (.value v) t) :
    Derives (.members [(key, v)]) (k ++ ':' :: t) := by
  simpa using Derives.lastMember ws_nil hk ws_nil ws_nil h ws_nil

/-- A member of an object with others behind it, without white space. -/
lemma Derives.member_tight (hk : StringText k key) (h : Derives (.value v) t)
    (hms : Derives (.members ms) t') :
    Derives (.members ((key, v) :: ms)) (k ++ ':' :: (t ++ ',' :: t')) := by
  simpa using Derives.member ws_nil hk ws_nil ws_nil h ws_nil hms

end Tight

/-! ## The reader -/

/-- The text without the white space it begins with. -/
def skipWs (cs : List Char) : List Char :=
  cs.dropWhile isWs

/-- What follows the word in the text. -/
def expect (word cs : List Char) : Option (List Char) :=
  if word <+: cs then some (cs.drop word.length) else none

/-- Four hexadecimal digits. -/
def readHex4 : List Char → Option (ℕ × List Char)
  | a :: b :: c :: d :: cs => (hex4? a b c d).map fun u => (u, cs)
  | _ => none

/-- What follows a backslash. -/
def readEscape : List Char → Option (Char × List Char)
  | [] => none
  | e :: cs =>
    if e = 'u' then do
      let (u, cs) ← readHex4 cs
      if isHigh u then
        let cs ← expect ['\\', 'u'] cs
        let (low, cs) ← readHex4 cs
        if isLow low then some (pairChar u low, cs) else none
      else if isLow u then none
      else some (Char.ofNat u, cs)
    else (shortEscape? e).map fun c => (c, cs)

/-- The characters of a string up to the quote that ends it; there are fewer than `fuel`. -/
def readChars : ℕ → List Char → Option (List Char × List Char)
  | 0, _ => none
  | _ + 1, [] => none
  | fuel + 1, c :: cs =>
    if c = '"' then some ([], cs)
    else do
      let (c, cs) ← if c = '\\' then readEscape cs
        else if isPlain c then some (c, cs) else none
      let (s, cs) ← readChars fuel cs
      some (c :: s, cs)

/-- A string with its quotes. -/
def readString (cs : List Char) : Option (List Char × List Char) := do
  let cs ← expect ['"'] cs
  readChars (cs.length + 1) cs

/-- Digits, as many as there are, but at least one. -/
def readDigits (cs : List Char) : Option (List Char × List Char) :=
  if cs.takeWhile Char.isDigit = [] then none
  else some (cs.takeWhile Char.isDigit, cs.dropWhile Char.isDigit)

/-- The fraction of a number, which may be absent. -/
def readFrac : List Char → Option (List Char × List Char)
  | '.' :: cs => readDigits cs
  | cs => some ([], cs)

/-- The exponent of a number behind the letter. -/
def readExpDigits : List Char → Option (ℤ × List Char)
  | '+' :: cs => (readDigits cs).map fun (digits, cs) => (Nat.ofDigitChars 10 digits 0, cs)
  | '-' :: cs => (readDigits cs).map fun (digits, cs) => (-(Nat.ofDigitChars 10 digits 0 : ℤ), cs)
  | cs => (readDigits cs).map fun (digits, cs) => (Nat.ofDigitChars 10 digits 0, cs)

/-- The exponent of a number, which may be absent. -/
def readExp : List Char → Option (ℤ × List Char)
  | [] => some (0, [])
  | c :: cs => if c = 'e' ∨ c = 'E' then readExpDigits cs else some (0, c :: cs)

/-- A number without a sign: its mantissa and its exponent. -/
def readUnsigned (cs : List Char) : Option ((ℕ × ℤ) × List Char) := do
  let (int, cs) ← readDigits cs
  if int.head? = some '0' ∧ int ≠ ['0'] then none
  else
    let (digits, cs) ← readFrac cs
    let (x, cs) ← readExp cs
    some ((Nat.ofDigitChars 10 (int ++ digits) 0, x - digits.length), cs)

/-- A number. -/
def readNumber : List Char → Option (Value × List Char)
  | '-' :: cs => (readUnsigned cs).map fun ((m, x), cs) => (.num (-m) x, cs)
  | cs => (readUnsigned cs).map fun ((m, x), cs) => (.num m x, cs)

/-- Items with commas between them, up to the character that closes them. -/
def readItems {α : Type*} (item : List Char → Option (α × List Char)) (close : Char) :
    ℕ → List Char → Option (List α × List Char)
  | 0, _ => none
  | fuel + 1, cs => do
    let (a, cs) ← item (skipWs cs)
    match skipWs cs with
    | [] => none
    | c :: cs =>
      if c = close then some ([a], cs)
      else if c = ',' then
        let (as, cs) ← readItems item close fuel cs
        some (a :: as, cs)
      else none

/-- The items between two brackets, if there are any. -/
def readBlock {α : Type*} (item : List Char → Option (α × List Char)) (close : Char) (fuel : ℕ)
    (cs : List Char) : Option (List α × List Char) :=
  if (skipWs cs).head? = some close then some ([], (skipWs cs).tail)
  else readItems item close fuel cs

/-- A member of an object, by what reads its value. -/
def readMember (value : List Char → Option (Value × List Char)) (cs : List Char) :
    Option ((List Char × Value) × List Char) := do
  let (key, cs) ← readString cs
  let cs ← expect [':'] (skipWs cs)
  let (v, cs) ← value (skipWs cs)
  some ((key, v), cs)

/-- A value; arrays and objects are nested less than `fuel` deep. -/
def readValue : ℕ → List Char → Option (Value × List Char)
  | 0, _ => none
  | _ + 1, [] => none
  | fuel + 1, c :: cs =>
    if c = 'n' then (expect ['u', 'l', 'l'] cs).map fun cs => (.null, cs)
    else if c = 't' then (expect ['r', 'u', 'e'] cs).map fun cs => (.bool true, cs)
    else if c = 'f' then (expect ['a', 'l', 's', 'e'] cs).map fun cs => (.bool false, cs)
    else if c = '"' then (readString (c :: cs)).map fun (s, cs) => (.str s, cs)
    else if c = '[' then
      (readBlock (readValue fuel) ']' fuel cs).map fun (vs, cs) => (.arr vs, cs)
    else if c = '{' then
      (readBlock (readMember (readValue fuel)) '}' fuel cs).map fun (ms, cs) => (.obj ms, cs)
    else readNumber (c :: cs)

/-- The value of a text. -/
def read (cs : List Char) : Option Value := do
  let (v, rest) ← readValue (cs.length + 1) (skipWs cs)
  if skipWs rest = [] then some v else none

/-! ## What the grammar derives is read -/

/-- The text does not begin with such a character. -/
def Stops (p : Char → Bool) (r : List Char) : Prop :=
  ∀ c ∈ r.head?, p c = false

lemma stops_nil (p : Char → Bool) : Stops p [] := by
  simp [Stops]

lemma stops_cons {p : Char → Bool} {c : Char} {cs : List Char} :
    Stops p (c :: cs) ↔ p c = false := by
  simp [Stops]

/-- What can go on a number. -/
def isNumeric (c : Char) : Bool :=
  c.isDigit || c = '.' || c = 'e' || c = 'E'

section Scanners

variable {p : Char → Bool} {t r w : List Char}

lemma takeWhile_append (ht : ∀ c ∈ t, p c = true) (hr : Stops p r) :
    (t ++ r).takeWhile p = t := by
  rw [List.takeWhile_append_of_pos ht]
  cases r with
  | nil => simp
  | cons c cs => simp [stops_cons.mp hr]

lemma dropWhile_append (ht : ∀ c ∈ t, p c = true) (hr : Stops p r) :
    (t ++ r).dropWhile p = r := by
  rw [List.dropWhile_append_of_pos ht]
  cases r with
  | nil => rfl
  | cons c cs => simp [stops_cons.mp hr]

lemma skipWs_append (hw : Ws w) (hr : Stops isWs r) : skipWs (w ++ r) = r :=
  dropWhile_append hw hr

lemma expect_append (word r : List Char) : expect word (word ++ r) = some r := by
  rw [expect, if_pos (List.prefix_append ..), List.drop_left]

lemma readDigits_append (ht : Digits t) (hr : Stops Char.isDigit r) :
    readDigits (t ++ r) = some (t, r) := by
  rw [readDigits, takeWhile_append ht.2 hr, dropWhile_append ht.2 hr, if_neg ht.1]

end Scanners

/-! ### Strings -/

lemma readHex4_eq_some {cs r : List Char} {u : ℕ} (h : readHex4 cs = some (u, r)) :
    ∃ a b c d, cs = a :: b :: c :: d :: r ∧ hex4? a b c d = some u := by
  unfold readHex4 at h
  split at h
  · rename_i a b c d cs
    obtain ⟨u', hu', heq⟩ := Option.map_eq_some_iff.mp h
    obtain ⟨rfl, rfl⟩ := Prod.mk.inj heq
    exact ⟨a, b, c, d, rfl, hu'⟩
  · cases h

/-- An escape is read, and what follows it. -/
lemma readChars_escape {cs cs' s r : List Char} {c : Char} {fuel : ℕ}
    (hescape : readEscape cs = some (c, cs')) (hrest : readChars fuel cs' = some (s, r)) :
    readChars (fuel + 1) ('\\' :: cs) = some (c :: s, r) := by
  simp [readChars, hescape, hrest]

/-- The escapes of a string are read as what they mean. -/
lemma readChars_of_chars {t s : List Char} (h : Chars t s) (r : List Char) {fuel : ℕ}
    (hfuel : t.length < fuel) : readChars fuel (t ++ '"' :: r) = some (s, r) := by
  induction h generalizing fuel with
  | nil =>
    obtain ⟨fuel, rfl⟩ := Nat.exists_eq_add_one.mpr (Nat.zero_lt_of_lt hfuel)
    rw [List.nil_append, readChars, if_pos rfl]
  | @plain c t s hc _ ih =>
    obtain ⟨fuel, rfl⟩ := Nat.exists_eq_add_one.mpr (Nat.zero_lt_of_lt hfuel)
    obtain ⟨-, hquote, hbackslash⟩ := isPlain_iff.mp hc
    rw [List.length_cons] at hfuel
    have hrest : readChars fuel (t ++ '"' :: r) = some (s, r) := ih (by omega)
    simp [readChars, hquote, hbackslash, hc, hrest]
  | @short e c t s he _ ih =>
    obtain ⟨fuel, rfl⟩ := Nat.exists_eq_add_one.mpr (Nat.zero_lt_of_lt hfuel)
    have hne : e ≠ 'u' := by
      rintro rfl
      have hnone : shortEscape? 'u' = none := by decide
      rw [hnone] at he
      cases he
    simp only [List.length_cons] at hfuel
    refine readChars_escape ?_ (ih (by omega))
    simp [readEscape, hne, he]
  | @unit a b c d u t s hu hhigh hlow _ ih =>
    obtain ⟨fuel, rfl⟩ := Nat.exists_eq_add_one.mpr (Nat.zero_lt_of_lt hfuel)
    simp only [List.length_cons] at hfuel
    refine readChars_escape ?_ (ih (by omega))
    simp [readEscape, readHex4, hu, hhigh, hlow]
  | @pair a b c d a' b' c' d' high low t s hhigh hishigh hlow hislow _ ih =>
    obtain ⟨fuel, rfl⟩ := Nat.exists_eq_add_one.mpr (Nat.zero_lt_of_lt hfuel)
    simp only [List.length_cons] at hfuel
    have hword := fun r => expect_append ['\\', 'u'] r
    simp only [List.cons_append, List.nil_append] at hword
    refine readChars_escape ?_ (ih (by omega))
    simp [readEscape, readHex4, hhigh, hishigh, hword, hlow, hislow]

lemma readString_of_stringText {t s : List Char} (h : StringText t s) (r : List Char) :
    readString (t ++ r) = some (s, r) := by
  obtain ⟨body, hbody, rfl⟩ := h
  have hquote := expect_append ['"'] (body ++ '"' :: r)
  have hlen : body.length < (body ++ '"' :: r).length + 1 := by
    rw [List.length_append]
    omega
  simp only [List.singleton_append] at hquote
  simp only [List.cons_append, List.append_assoc, List.nil_append, readString, hquote,
    Option.bind_eq_bind, Option.bind_some]
  exact readChars_of_chars hbody r hlen

/-! ### Numbers -/

lemma Stops.mono {p q : Char → Bool} {r : List Char} (h : Stops p r)
    (hpq : ∀ c, p c = false → q c = false) : Stops q r :=
  fun c hc => hpq c (h c hc)

lemma isNumeric_eq_false {c : Char} :
    isNumeric c = false ↔ c.isDigit = false ∧ c ≠ '.' ∧ c ≠ 'e' ∧ c ≠ 'E' := by
  simp [isNumeric, and_assoc]

/-- The digits of a text stop where something else goes on. -/
lemma stops_isDigit_of_isNumeric {r : List Char} (h : Stops isNumeric r) :
    Stops Char.isDigit r :=
  h.mono fun _ hc => (isNumeric_eq_false.mp hc).1

lemma readFrac_append {frac digits r : List Char} (h : FracText frac digits)
    (hdigit : Stops Char.isDigit r) (hdot : Stops (· = '.') r) :
    readFrac (frac ++ r) = some (digits, r) := by
  cases h with
  | absent =>
    rw [List.nil_append, readFrac]
    rintro cs rfl
    simp [stops_cons] at hdot
  | present hdigits => exact readDigits_append hdigits hdigit

/-- Digits do not begin with a sign. -/
lemma Digits.head_ne {t : List Char} (h : Digits t) {c : Char} (hc : c.isDigit = false)
    (cs : List Char) : t ≠ c :: cs := by
  rintro rfl
  rw [h.2 c List.mem_cons_self] at hc
  cases hc

lemma readExpDigits_append {digits r : List Char} (h : Digits digits)
    (hr : Stops Char.isDigit r) :
    readExpDigits (digits ++ r) = some ((Nat.ofDigitChars 10 digits 0 : ℤ), r) := by
  obtain ⟨d, ds, rfl⟩ := List.exists_cons_of_ne_nil h.1
  have hplus : d ≠ '+' := fun heq => h.head_ne (c := '+') (by decide) ds (by rw [heq])
  have hminus : d ≠ '-' := fun heq => h.head_ne (c := '-') (by decide) ds (by rw [heq])
  have hread := readDigits_append h hr
  rw [List.cons_append] at hread ⊢
  rw [readExpDigits, hread, Option.map_some]
  · rintro cs heq
    exact hplus (List.cons.inj heq).1
  · rintro cs heq
    exact hminus (List.cons.inj heq).1

lemma readExp_append {exp r : List Char} {x : ℤ} (h : ExpText exp x) (hr : Stops isNumeric r) :
    readExp (exp ++ r) = some (x, r) := by
  have hdigit := stops_isDigit_of_isNumeric hr
  cases h with
  | absent =>
    cases r with
    | nil => rfl
    | cons c cs =>
      obtain ⟨-, -, hne⟩ := isNumeric_eq_false.mp (stops_cons.mp hr)
      rw [List.nil_append, readExp, if_neg (not_or.mpr hne)]
  | unsigned he hdigits =>
    rw [List.cons_append, readExp, if_pos he, readExpDigits_append hdigits hdigit]
  | plus he hdigits =>
    rw [List.cons_append, readExp, if_pos he, List.cons_append, readExpDigits,
      readDigits_append hdigits hdigit, Option.map_some]
  | minus he hdigits =>
    rw [List.cons_append, readExp, if_pos he, List.cons_append, readExpDigits,
      readDigits_append hdigits hdigit, Option.map_some]

/-- What follows the fraction does not go on with it. -/
lemma ExpText.stops {exp r : List Char} {x : ℤ} (h : ExpText exp x) (hr : Stops isNumeric r) :
    Stops Char.isDigit (exp ++ r) ∧ Stops (· = '.') (exp ++ r) := by
  have hletter : ∀ {e : Char}, e = 'e' ∨ e = 'E' →
      e.isDigit = false ∧ decide (e = '.') = false := by
    rintro e (rfl | rfl) <;> decide
  cases h with
  | absent =>
    refine ⟨stops_isDigit_of_isNumeric hr, hr.mono fun c hc => ?_⟩
    exact decide_eq_false (isNumeric_eq_false.mp hc).2.1
  | unsigned he _ => exact ⟨stops_cons.mpr (hletter he).1, stops_cons.mpr (hletter he).2⟩
  | plus he _ => exact ⟨stops_cons.mpr (hletter he).1, stops_cons.mpr (hletter he).2⟩
  | minus he _ => exact ⟨stops_cons.mpr (hletter he).1, stops_cons.mpr (hletter he).2⟩

lemma readUnsigned_append {t r : List Char} {m : ℕ} {x : ℤ} (h : UnsignedText t m x)
    (hr : Stops isNumeric r) : readUnsigned (t ++ r) = some ((m, x), r) := by
  obtain ⟨hint, hfrac, hexp⟩ := h
  rename_i int frac digits exp x
  obtain ⟨hdigit, hdot⟩ := hexp.stops hr
  have hstop : Stops Char.isDigit (frac ++ (exp ++ r)) := by
    cases hfrac with
    | absent => exact hdigit
    | present _ => exact stops_cons.mpr (by decide)
  have hzero : ¬(int.head? = some '0' ∧ int ≠ ['0']) := fun h => h.2 (hint.2 h.1)
  rw [List.append_assoc, List.append_assoc]
  simp only [readUnsigned, readDigits_append hint.1 hstop, hzero, if_false,
    readFrac_append hfrac hdigit hdot, readExp_append hexp hr, Option.bind_eq_bind,
    Option.bind_some]

/-- A number does not begin with a sign unless it has one. -/
lemma UnsignedText.exists_digit {t : List Char} {m : ℕ} {x : ℤ} (h : UnsignedText t m x) :
    ∃ c cs, t = c :: cs ∧ c.isDigit = true := by
  obtain ⟨hint, -, -⟩ := h
  obtain ⟨d, ds, rfl⟩ := List.exists_cons_of_ne_nil hint.1.1
  exact ⟨d, _, rfl, hint.1.2 d List.mem_cons_self⟩

lemma readNumber_append {t r : List Char} {m x : ℤ} (h : NumberText t m x)
    (hr : Stops isNumeric r) : readNumber (t ++ r) = some (.num m x, r) := by
  cases h with
  | pos h =>
    have hread := readUnsigned_append h hr
    obtain ⟨c, cs, rfl, hc⟩ := h.exists_digit
    rw [readNumber, hread, Option.map_some]
    rintro cs heq
    rw [(List.cons.inj heq).1] at hc
    exact absurd hc (by decide)
  | neg h => rw [List.cons_append, readNumber, readUnsigned_append h hr, Option.map_some]

/-! ### Values -/

/-- A value begins with a character that is neither white space nor a bracket that closes. -/
def isFirst (c : Char) : Bool :=
  c ∈ ['n', 't', 'f', '"', '[', '{', '-'] || c.isDigit

lemma stringText_first {t s : List Char} (h : StringText t s) : ∃ cs, t = '"' :: cs := by
  obtain ⟨body, -, rfl⟩ := h
  exact ⟨_, rfl⟩

lemma numberText_first {t : List Char} {m x : ℤ} (h : NumberText t m x) :
    ∃ c cs, t = c :: cs ∧ (c = '-' ∨ c.isDigit = true) := by
  cases h with
  | pos h =>
    obtain ⟨c, cs, rfl, hc⟩ := h.exists_digit
    exact ⟨c, cs, rfl, Or.inr hc⟩
  | neg h => exact ⟨'-', _, rfl, Or.inl rfl⟩

lemma Derives.first {t : List Char} {v : Value} (h : Derives (.value v) t) :
    ∃ c cs, t = c :: cs ∧ isFirst c = true := by
  cases h with
  | nullLit => exact ⟨_, _, rfl, by decide⟩
  | trueLit => exact ⟨_, _, rfl, by decide⟩
  | falseLit => exact ⟨_, _, rfl, by decide⟩
  | num h =>
    obtain ⟨c, cs, rfl, rfl | hc⟩ := numberText_first h
    · exact ⟨_, _, rfl, by decide⟩
    · exact ⟨c, cs, rfl, by rw [isFirst, hc, Bool.or_true]⟩
  | str h =>
    obtain ⟨cs, rfl⟩ := stringText_first h
    exact ⟨_, _, rfl, by decide⟩
  | emptyArr _ => exact ⟨_, _, rfl, by decide⟩
  | arr _ => exact ⟨_, _, rfl, by decide⟩
  | emptyObj _ => exact ⟨_, _, rfl, by decide⟩
  | obj _ => exact ⟨_, _, rfl, by decide⟩

lemma isFirst_ne {c d : Char} (hc : isFirst c = true) (hd : isFirst d = false) : c ≠ d := by
  rintro rfl
  rw [hc] at hd
  cases hd

lemma isWs_eq_false_of_isFirst {c : Char} (hc : isFirst c = true) : isWs c = false := by
  have hne : ∀ d, isFirst d = false → c ≠ d := fun _ => isFirst_ne hc
  simp [isWs, hne ' ' (by decide), hne '\t' (by decide), hne '\n' (by decide),
    hne '\r' (by decide)]

/-- What is read of the texts of a phrase. -/
def Reads : Phrase → List Char → Prop
  | .value v, t => ∀ fuel r, t.length ≤ fuel → Stops isNumeric r →
      readValue (fuel + 1) (t ++ r) = some (v, r)
  | .elements vs, t => ∀ fuel fuel' r, t.length ≤ fuel → t.length ≤ fuel' →
      readItems (readValue (fuel + 1)) ']' (fuel' + 1) (t ++ ']' :: r) = some (vs, r)
  | .members ms, t => ∀ fuel fuel' r, t.length ≤ fuel → t.length ≤ fuel' →
      readItems (readMember (readValue (fuel + 1))) '}' (fuel' + 1) (t ++ '}' :: r) = some (ms, r)

/-- White space does not go on a number. -/
lemma stops_isNumeric_of_isWs {c : Char} {cs : List Char} (hc : isWs c = true) :
    Stops isNumeric (c :: cs) := by
  refine stops_cons.mpr ?_
  simp only [isWs, Bool.or_eq_true, decide_eq_true_eq] at hc
  rcases hc with ((rfl | rfl) | rfl) | rfl <;> decide

lemma stops_isNumeric_append {w r : List Char} {c : Char} (hw : Ws w) (hc : isNumeric c = false) :
    Stops isNumeric (w ++ c :: r) := by
  cases w with
  | nil => exact stops_cons.mpr hc
  | cons d ds => exact stops_isNumeric_of_isWs (hw d List.mem_cons_self)

section Items

variable {α : Type} {item : List Char → Option (α × List Char)} {close : Char} {a : α}
  {as : List α} {w t w' t' r : List Char} {fuel : ℕ}

/-- The last item. -/
lemma readItems_last (fuel : ℕ) (hw : Ws w) (ht : Stops isWs (t ++ (w' ++ close :: r)))
    (hitem : item (t ++ (w' ++ close :: r)) = some (a, w' ++ close :: r)) (hw' : Ws w')
    (hclose : isWs close = false) :
    readItems item close (fuel + 1) (w ++ (t ++ (w' ++ close :: r))) = some ([a], r) := by
  have hskip : skipWs (w' ++ close :: r) = close :: r :=
    skipWs_append hw' (stops_cons.mpr hclose)
  simp only [readItems, skipWs_append hw ht, hitem, hskip, Option.bind_eq_bind, Option.bind_some,
    if_true]

/-- An item with others behind it. -/
lemma readItems_more (hw : Ws w) (ht : Stops isWs (t ++ (w' ++ ',' :: t')))
    (hitem : item (t ++ (w' ++ ',' :: t')) = some (a, w' ++ ',' :: t')) (hw' : Ws w')
    (hclose : close ≠ ',') (hrest : readItems item close fuel t' = some (as, r)) :
    readItems item close (fuel + 1) (w ++ (t ++ (w' ++ ',' :: t'))) = some (a :: as, r) := by
  have hskip : skipWs (w' ++ ',' :: t') = ',' :: t' :=
    skipWs_append hw' (stops_cons.mpr (by decide))
  simp only [readItems, skipWs_append hw ht, hitem, hskip, Option.bind_eq_bind, Option.bind_some,
    hclose.symm, if_false, if_true, hrest]

/-- Brackets with nothing between them. -/
lemma readBlock_nil (hw : Ws w) (hclose : isWs close = false) :
    readBlock item close fuel (w ++ close :: r) = some ([], r) := by
  have hskip : skipWs (w ++ close :: r) = close :: r :=
    skipWs_append hw (stops_cons.mpr hclose)
  rw [readBlock, hskip, List.head?_cons, if_pos rfl, List.tail_cons]

end Items

/-- Every phrase begins with a value, a key, or white space in front of one. -/
lemma Derives.exists_first {p : Phrase} {t : List Char} (h : Derives p t) :
    ∃ w c cs, Ws w ∧ t = w ++ c :: cs ∧ isFirst c = true := by
  have hvalue : ∀ {v t}, Derives (.value v) t → ∃ w c cs, Ws w ∧ t = w ++ c :: cs ∧
      isFirst c = true := by
    intro v t h
    obtain ⟨c, cs, rfl, hc⟩ := h.first
    exact ⟨[], c, cs, fun _ hmem => absurd hmem List.not_mem_nil, rfl, hc⟩
  cases h with
  | lastElement hw h _ =>
    obtain ⟨c, cs, rfl, hc⟩ := h.first
    exact ⟨_, c, _, hw, rfl, hc⟩
  | element hw h _ _ =>
    obtain ⟨c, cs, rfl, hc⟩ := h.first
    exact ⟨_, c, _, hw, rfl, hc⟩
  | lastMember hw hk _ _ _ _ =>
    obtain ⟨cs, rfl⟩ := stringText_first hk
    exact ⟨_, '"', _, hw, rfl, by decide⟩
  | member hw hk _ _ _ _ _ =>
    obtain ⟨cs, rfl⟩ := stringText_first hk
    exact ⟨_, '"', _, hw, rfl, by decide⟩
  | nullLit => exact hvalue .nullLit
  | trueLit => exact hvalue .trueLit
  | falseLit => exact hvalue .falseLit
  | num h => exact hvalue (.num h)
  | str h => exact hvalue (.str h)
  | emptyArr h => exact hvalue (.emptyArr h)
  | arr h => exact hvalue (.arr h)
  | emptyObj h => exact hvalue (.emptyObj h)
  | obj h => exact hvalue (.obj h)

/-- Brackets with items between them. -/
lemma readBlock_of_derives {α : Type} {item : List Char → Option (α × List Char)} {close : Char}
    {p : Phrase} {t : List Char} (h : Derives p t) (hclose : isFirst close = false) (fuel : ℕ)
    (r : List Char) :
    readBlock item close fuel (t ++ r) = readItems item close fuel (t ++ r) := by
  obtain ⟨w, c, cs, hw, rfl, hc⟩ := h.exists_first
  have hskip : skipWs (w ++ c :: cs ++ r) = c :: (cs ++ r) := by
    rw [List.append_assoc, List.cons_append]
    exact skipWs_append hw (stops_cons.mpr (isWs_eq_false_of_isFirst hc))
  have hne : c ≠ close := isFirst_ne hc hclose
  rw [readBlock, hskip, List.head?_cons, if_neg (by rwa [Option.some_inj])]

lemma readMember_append {value : List Char → Option (Value × List Char)}
    {k key w w' t r : List Char} {v : Value} (hk : StringText k key) (hw : Ws w) (hw' : Ws w')
    (ht : Stops isWs (t ++ r)) (hvalue : value (t ++ r) = some (v, r)) :
    readMember value (k ++ (w ++ ':' :: (w' ++ (t ++ r)))) = some ((key, v), r) := by
  have hskip : skipWs (w ++ ':' :: (w' ++ (t ++ r))) = [':'] ++ (w' ++ (t ++ r)) :=
    skipWs_append hw (stops_cons.mpr (by decide))
  simp only [readMember, readString_of_stringText hk, hskip, expect_append, skipWs_append hw' ht,
    hvalue, Option.bind_eq_bind, Option.bind_some]

/-- A value does not begin with white space. -/
lemma Derives.stops_isWs {v : Value} {t : List Char} (h : Derives (.value v) t) (r : List Char) :
    Stops isWs (t ++ r) := by
  obtain ⟨c, cs, rfl, hc⟩ := h.first
  exact stops_cons.mpr (isWs_eq_false_of_isFirst hc)

lemma StringText.stops_isWs {t s : List Char} (h : StringText t s) (r : List Char) :
    Stops isWs (t ++ r) := by
  obtain ⟨cs, rfl⟩ := stringText_first h
  exact stops_cons.mpr (by decide)

/-- A number is read where a value is. -/
lemma readValue_of_numberText {t : List Char} {m x : ℤ} (h : NumberText t m x) (fuel : ℕ)
    (r : List Char) : readValue (fuel + 1) (t ++ r) = readNumber (t ++ r) := by
  obtain ⟨c, cs, rfl, hc⟩ := numberText_first h
  have hne : ∀ d, d ≠ '-' → d.isDigit = false → c ≠ d := by
    rintro d hd hdigit rfl
    rcases hc with rfl | hc
    · exact hd rfl
    · rw [hc] at hdigit
      cases hdigit
  rw [List.cons_append, readValue, if_neg (hne 'n' (by decide) (by decide)),
    if_neg (hne 't' (by decide) (by decide)), if_neg (hne 'f' (by decide) (by decide)),
    if_neg (hne '"' (by decide) (by decide)), if_neg (hne '[' (by decide) (by decide)),
    if_neg (hne '{' (by decide) (by decide))]

/-- Between brackets one level less is enough. -/
lemma exists_fuel_between {t : List Char} {left right : Char} {fuel : ℕ}
    (h : (left :: (t ++ [right])).length ≤ fuel) : ∃ n, fuel = n + 1 ∧ t.length ≤ n := by
  simp only [List.length_cons, List.length_append, List.length_nil] at h
  exact ⟨fuel - 1, by omega, by omega⟩

/-- **Completeness.**  The reader finds the value of every text of the grammar. -/
theorem Derives.reads {p : Phrase} {t : List Char} (h : Derives p t) : Reads p t := by
  induction h with
  | nullLit =>
    intro fuel r _ _
    have hword : expect ['u', 'l', 'l'] ('u' :: 'l' :: 'l' :: r) = some r := expect_append _ r
    simp [readValue, hword]
  | trueLit =>
    intro fuel r _ _
    have hword : expect ['r', 'u', 'e'] ('r' :: 'u' :: 'e' :: r) = some r := expect_append _ r
    simp [readValue, hword]
  | falseLit =>
    intro fuel r _ _
    have hword : expect ['a', 'l', 's', 'e'] ('a' :: 'l' :: 's' :: 'e' :: r) = some r :=
      expect_append _ r
    simp [readValue, hword]
  | num h =>
    intro fuel r _ hr
    rw [readValue_of_numberText h, readNumber_append h hr]
  | str h =>
    intro fuel r _ _
    have hread := readString_of_stringText h r
    obtain ⟨cs, rfl⟩ := stringText_first h
    rw [List.cons_append] at hread ⊢
    simp [readValue, hread]
  | emptyArr hw =>
    intro fuel r _ _
    simp [readValue, readBlock_nil hw (show isWs ']' = false by decide)]
  | @arr vs t h ih =>
    intro fuel r hfuel _
    obtain ⟨fuel, rfl, hle⟩ := exists_fuel_between hfuel
    have hread := ih fuel fuel r hle hle
    rw [← readBlock_of_derives h (by decide)] at hread
    simp [readValue, hread]
  | emptyObj hw =>
    intro fuel r _ _
    simp [readValue, readBlock_nil hw (show isWs '}' = false by decide)]
  | @obj ms t h ih =>
    intro fuel r hfuel _
    obtain ⟨fuel, rfl, hle⟩ := exists_fuel_between hfuel
    have hread := ih fuel fuel r hle hle
    rw [← readBlock_of_derives h (by decide)] at hread
    simp [readValue, hread]
  | @lastElement v w t w₁ hw h hw₁ ih =>
    intro fuel fuel' r hfuel _
    simp only [List.length_append] at hfuel
    have hvalue := ih fuel (w₁ ++ ']' :: r) (by omega) (stops_isNumeric_append hw₁ (by decide))
    simp only [List.append_assoc]
    exact readItems_last fuel' hw (h.stops_isWs _) hvalue hw₁ (by decide)
  | @element v vs w t w₁ t' hw h hw₁ _ ih ih' =>
    intro fuel fuel' r hfuel hfuel'
    simp only [List.length_append, List.length_cons] at hfuel hfuel'
    obtain ⟨fuel', rfl⟩ := Nat.exists_eq_add_one.mpr (show 0 < fuel' by omega)
    have hvalue := ih fuel (w₁ ++ ',' :: (t' ++ ']' :: r)) (by omega)
      (stops_isNumeric_append hw₁ (by decide))
    simp only [List.append_assoc, List.cons_append]
    exact readItems_more hw (h.stops_isWs _) hvalue hw₁ (by decide)
      (ih' fuel fuel' r (by omega) (by omega))
  | @lastMember key v w k w₁ w₂ t w₃ hw hk hw₁ hw₂ h hw₃ ih =>
    intro fuel fuel' r hfuel _
    simp only [List.length_append, List.length_cons] at hfuel
    have hvalue := ih fuel (w₃ ++ '}' :: r) (by omega) (stops_isNumeric_append hw₃ (by decide))
    have hitem := readMember_append hk hw₁ hw₂ (h.stops_isWs _) hvalue
    have hread := readItems_last (t := k ++ (w₁ ++ ':' :: (w₂ ++ t))) fuel' hw
      (by simpa using hk.stops_isWs _) (by simpa using hitem) hw₃ (by decide)
    simpa using hread
  | @member key v ms w k w₁ w₂ t w₃ t' hw hk hw₁ hw₂ h hw₃ _ ih ih' =>
    intro fuel fuel' r hfuel hfuel'
    simp only [List.length_append, List.length_cons] at hfuel hfuel'
    obtain ⟨fuel', rfl⟩ := Nat.exists_eq_add_one.mpr (show 0 < fuel' by omega)
    have hvalue := ih fuel (w₃ ++ ',' :: (t' ++ '}' :: r)) (by omega)
      (stops_isNumeric_append hw₃ (by decide))
    have hitem := readMember_append hk hw₁ hw₂ (h.stops_isWs _) hvalue
    have hread := readItems_more (t := k ++ (w₁ ++ ':' :: (w₂ ++ t))) hw
      (by simpa using hk.stops_isWs _) (by simpa using hitem) hw₃ (by decide)
      (ih' fuel fuel' r (by omega) (by omega))
    simpa using hread

/-- The reader finds the value of every text. -/
theorem Document.read_eq {t : List Char} {v : Value} (h : Document t v) : read t = some v := by
  obtain ⟨w, body, w', hw, hbody, hw', rfl⟩ := h
  have hstops : Stops isNumeric w' := by
    cases w' with
    | nil => exact stops_nil _
    | cons c cs => exact stops_isNumeric_of_isWs (hw' c List.mem_cons_self)
  have hvalue : readValue ((w ++ (body ++ w')).length + 1) (body ++ w') = some (v, w') := by
    refine hbody.reads _ w' ?_ hstops
    simp only [List.length_append]
    omega
  have hend : skipWs w' = [] := by
    have hskip := skipWs_append hw' (stops_nil isWs)
    rwa [List.append_nil] at hskip
  simp only [read, skipWs_append hw (hbody.stops_isWs w'), hvalue, hend, Option.bind_eq_bind,
    Option.bind_some, if_true]

/-- **Unambiguity.**  A text has one value. -/
theorem Document.unique {t : List Char} {v v' : Value} (h : Document t v) (h' : Document t v') :
    v = v' := by
  have heq := h.read_eq.symm.trans h'.read_eq
  exact Option.some_inj.mp heq

example : read " [ 1.50e-3, \"\\ud83d\\ude00\\/\", [], -0 ] ".toList =
    some (.arr [.num 150 (-5), .str ['😀', '/'], .arr [], .num 0 0]) := by
  rfl

end Json
