import Mathlib.Data.List.Infix
import Mathlib.Tactic.Common

/-!
# Messages with header lines and a counted body

A message of the kind of HTTP: lines that end with a carriage return and a line feed, an empty line,
and a body whose length one of the lines gives.  `read` is the receiver, which takes the message
from the front of what has arrived.  It reads what `write` writes (`read_write`), and nothing of it
that is not all of it (`read_of_prefix`).
-/

namespace HttpMessage

variable {α : Type*}

/-- The two elements that end a line. -/
structure LineEnd (α : Type*) where
  cr : α
  lf : α

/-- The text of some lines. -/
def lines (e : LineEnd α) (ls : List (List α)) : List α :=
  ls.flatMap fun l => l ++ [e.cr, e.lf]

/-- A message: its lines, an empty one, and the body. -/
def write (e : LineEnd α) (ls : List (List α)) (body : List α) : List α :=
  lines e ls ++ e.cr :: e.lf :: body

variable {e : LineEnd α}

lemma lines_cons (l : List α) (ls : List (List α)) :
    lines e (l :: ls) = l ++ e.cr :: e.lf :: lines e ls := by
  rw [lines, List.flatMap_cons, List.append_assoc]
  rfl

lemma write_cons (l : List α) (ls : List (List α)) (body : List α) :
    write e (l :: ls) body = l ++ e.cr :: e.lf :: write e ls body := by
  rw [write, lines_cons, List.append_assoc]
  rfl

lemma length_lt_write (ls : List (List α)) (body : List α) :
    ls.length < (write e ls body).length := by
  induction ls with
  | nil => simp [write, lines]
  | cons l ls ih =>
    rw [write_cons, List.length_append, List.length_cons, List.length_cons, List.length_cons]
    omega

/-- A part of a line and its end is a part of the line and the first element of the end, or all of
it with something behind. -/
lemma prefix_line {l text rest : List α} (h : text <+: l ++ e.cr :: e.lf :: rest) :
    text <+: l ++ [e.cr] ∨ ∃ text', text' <+: rest ∧ text = l ++ e.cr :: e.lf :: text' := by
  have hcr : l ++ [e.cr] <+: l ++ e.cr :: e.lf :: rest := by simp
  have hlf : l ++ [e.cr, e.lf] <+: l ++ e.cr :: e.lf :: rest := by simp
  rcases Nat.lt_or_ge text.length (l ++ [e.cr, e.lf]).length with hlt | hge
  · left
    apply List.prefix_of_prefix_length_le h hcr
    simp only [List.length_append, List.length_cons, List.length_nil] at hlt ⊢
    omega
  · right
    obtain ⟨text', rfl⟩ := List.prefix_of_prefix_length_le hlf h hge
    refine ⟨text', ?_, by simp⟩
    rw [List.append_assoc, List.prefix_append_right_inj] at h
    exact (List.prefix_append_right_inj [e.cr, e.lf]).mp h

section Read

variable [DecidableEq α]

/-- The first line, and what stands behind its end. -/
def readLine (e : LineEnd α) : List α → Option (List α × List α)
  | [] => none
  | a :: rest =>
    if a = e.cr ∧ rest.head? = some e.lf then some ([], rest.tail)
    else (readLine e rest).map fun p => (a :: p.1, p.2)

/-- The lines up to an empty one, and what stands behind it.  There are no more lines than
elements. -/
def readLines (e : LineEnd α) : ℕ → List α → Option (List (List α) × List α)
  | 0, _ => none
  | fuel + 1, text =>
    match readLine e text with
    | none => none
    | some ([], rest) => some ([], rest)
    | some (l, rest) => (readLines e fuel rest).map fun p => (l :: p.1, p.2)

/-- The message at the front of what has arrived: its lines, and the body that has the length
`bodyLength` of them. -/
def read (e : LineEnd α) (bodyLength : List (List α) → Option ℕ) (text : List α) :
    Option (List (List α) × List α) :=
  match readLines e text.length text with
  | none => none
  | some (ls, rest) =>
    match bodyLength ls with
    | none => none
    | some n => if n ≤ rest.length then some (ls, rest.take n) else none

/-- A line without the first element of a line end is read up to its end. -/
lemma readLine_append {l : List α} (hl : e.cr ∉ l) (rest : List α) :
    readLine e (l ++ e.cr :: e.lf :: rest) = some (l, rest) := by
  induction l with
  | nil => simp [readLine]
  | cons a l ih =>
    rw [List.mem_cons, not_or] at hl
    have hne : ¬(a = e.cr ∧ (l ++ e.cr :: e.lf :: rest).head? = some e.lf) :=
      fun h => hl.1 h.1.symm
    rw [List.cons_append, readLine, if_neg hne, ih hl.2, Option.map_some]

/-- A part of a line is no line. -/
lemma readLine_of_prefix {l : List α} (hl : e.cr ∉ l) {text : List α}
    (h : text <+: l ++ [e.cr]) : readLine e text = none := by
  induction l generalizing text with
  | nil =>
    cases text with
    | nil => rfl
    | cons a text =>
      obtain ⟨rfl, htext⟩ := List.cons_prefix_cons.mp h
      rw [List.prefix_nil.mp htext]
      simp [readLine]
  | cons a l ih =>
    cases text with
    | nil => rfl
    | cons b text =>
      rw [List.mem_cons, not_or] at hl
      obtain ⟨rfl, htext⟩ := List.cons_prefix_cons.mp h
      rw [readLine, if_neg fun h => hl.1 h.1.symm, ih hl.2 htext, Option.map_none]

/-- Lines that are neither empty nor contain the first element of a line end are read back. -/
lemma readLines_write {ls : List (List α)} (hne : ∀ l ∈ ls, l ≠ [])
    (hcr : ∀ l ∈ ls, e.cr ∉ l) (body : List α) {fuel : ℕ} (hfuel : ls.length < fuel) :
    readLines e fuel (write e ls body) = some (ls, body) := by
  induction ls generalizing fuel with
  | nil =>
    obtain ⟨fuel, rfl⟩ := Nat.exists_eq_add_one_of_ne_zero (Nat.ne_of_gt hfuel)
    simp [readLines, write, lines, readLine]
  | cons l ls ih =>
    obtain ⟨fuel, rfl⟩ := Nat.exists_eq_add_one_of_ne_zero (Nat.ne_of_gt (Nat.zero_lt_of_lt hfuel))
    rw [List.forall_mem_cons] at hne hcr
    rw [List.length_cons, Nat.add_lt_add_iff_right] at hfuel
    rw [readLines, write_cons, readLine_append hcr.1]
    cases l with
    | nil => exact absurd rfl hne.1
    | cons a l =>
      simp only
      rw [ih hne.2 hcr.2 hfuel, Option.map_some]

/-- **Round trip.**  A message is read back when its lines say the length of its body. -/
theorem read_write {bodyLength : List (List α) → Option ℕ} {ls : List (List α)} {body : List α}
    (hne : ∀ l ∈ ls, l ≠ []) (hcr : ∀ l ∈ ls, e.cr ∉ l)
    (hlength : bodyLength ls = some body.length) :
    read e bodyLength (write e ls body) = some (ls, body) := by
  rw [read, readLines_write hne hcr body (length_lt_write ls body)]
  simp only [hlength, le_refl, if_true, List.take_length]

/-- A part of a message has all the lines and a part of the body, or its lines do not end. -/
lemma readLines_of_prefix {ls : List (List α)} (hne : ∀ l ∈ ls, l ≠ [])
    (hcr : ∀ l ∈ ls, e.cr ∉ l) {body text : List α} (h : text <+: write e ls body) (fuel : ℕ) :
    readLines e fuel text = none ∨
      ∃ part, part <+: body ∧ text = write e ls part ∧ readLines e fuel text = some (ls, part) := by
  induction ls generalizing text fuel with
  | nil =>
    cases fuel with
    | zero => exact Or.inl rfl
    | succ fuel =>
      rcases prefix_line (l := []) h with hline | ⟨part, hpart, rfl⟩
      · rw [readLines, readLine_of_prefix List.not_mem_nil hline]
        exact Or.inl rfl
      · exact Or.inr ⟨part, hpart, rfl, by simp [readLines, readLine]⟩
  | cons l ls ih =>
    rw [List.forall_mem_cons] at hne hcr
    cases fuel with
    | zero => exact Or.inl rfl
    | succ fuel =>
      rw [write_cons] at h
      rcases prefix_line h with hline | ⟨text', htext', rfl⟩
      · rw [readLines, readLine_of_prefix hcr.1 hline]
        exact Or.inl rfl
      · rw [readLines, readLine_append hcr.1]
        cases l with
        | nil => exact absurd rfl hne.1
        | cons a l =>
          rcases ih hne.2 hcr.2 htext' fuel with hnone | ⟨part, hpart, rfl, hread⟩
          · exact Or.inl (by simp only [hnone, Option.map_none])
          · exact Or.inr ⟨part, hpart, (write_cons _ _ _).symm, by
              simp only [hread, Option.map_some]⟩

/-- **All or nothing.**  A message that has not arrived in full is not read. -/
theorem read_of_prefix {bodyLength : List (List α) → Option ℕ} {ls : List (List α)}
    {body text : List α} (hne : ∀ l ∈ ls, l ≠ []) (hcr : ∀ l ∈ ls, e.cr ∉ l)
    (hlength : bodyLength ls = some body.length) (h : text <+: write e ls body)
    (hpart : text ≠ write e ls body) : read e bodyLength text = none := by
  rw [read]
  rcases readLines_of_prefix hne hcr h text.length with hnone | ⟨part, hpre, htext, hread⟩
  · rw [hnone]
  · rw [hread]
    simp only [hlength]
    rw [if_neg]
    intro hle
    exact hpart (by rw [htext, hpre.eq_of_length_le hle])

end Read

end HttpMessage
