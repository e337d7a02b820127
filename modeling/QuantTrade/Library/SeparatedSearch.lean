import Mathlib.Data.List.Infix
import Mathlib.Tactic.Common

/-!
# Searching behind separators

`search` gives the first index at which a pattern stands with something behind it.  In segments
that each end with a separator (`joined`), the pattern of a separator and a key stands in front of
the segments that begin with the key, and nowhere else (`search_joined_cons`).  The first segment
has no separator in front of it.
-/

namespace SeparatedSearch

variable {α : Type*}

/-- The first index at which the pattern stands with something behind it. -/
def search [DecidableEq α] (pattern l : List α) : Option ℕ :=
  (List.range (l.length - pattern.length)).find? fun i => pattern <+: l.drop i

/-- Segments, each with a separator behind it. -/
def joined (sep : α) (segments : List (List α)) : List α :=
  segments.flatMap (· ++ [sep])

@[simp] lemma joined_nil (sep : α) : joined sep [] = [] := rfl

lemma joined_cons (sep : α) (segment : List α) (segments : List (List α)) :
    joined sep (segment :: segments) = segment ++ sep :: joined sep segments := by
  rw [joined, List.flatMap_cons, List.append_assoc]
  rfl

lemma joined_append (sep : α) (segments segments' : List (List α)) :
    joined sep (segments ++ segments') = joined sep segments ++ joined sep segments' :=
  List.flatMap_append

/-- A list that ends with a separator consists of segments. -/
lemma exists_joined (sep : α) (l : List α) :
    ∃ segments, (∀ segment ∈ segments, sep ∉ segment) ∧ l ++ [sep] = joined sep segments := by
  classical
  induction l with
  | nil => exact ⟨[[]], by simp, rfl⟩
  | cons a l ih =>
    obtain ⟨segments, hsep, hjoined⟩ := ih
    by_cases ha : sep = a
    · refine ⟨[] :: segments, List.forall_mem_cons.mpr ⟨List.not_mem_nil, hsep⟩, ?_⟩
      rw [joined_cons, ← hjoined, ha]
      rfl
    · cases segments with
      | nil => exact absurd hjoined (by simp)
      | cons segment segments =>
        rw [List.forall_mem_cons] at hsep
        refine ⟨(a :: segment) :: segments, List.forall_mem_cons.mpr ⟨?_, hsep.2⟩, ?_⟩
        · rw [List.mem_cons, not_or]
          exact ⟨ha, hsep.1⟩
        · rw [joined_cons, List.cons_append, List.cons_append, hjoined, joined_cons]

/-! ## The search -/

/-- A key that stands in front of a segment and its separator is a part of the segment. -/
lemma prefix_append_cons_iff {sep : α} {key segment rest : List α} (hkey : sep ∉ key) :
    key <+: segment ++ sep :: rest ↔ key <+: segment := by
  constructor
  · rintro ⟨tail, htail⟩
    rcases List.append_eq_append_iff.mp htail with ⟨rest', rfl, -⟩ | ⟨rest', rfl, hrest⟩
    · exact List.prefix_append _ _
    · cases rest' with
      | nil => rw [List.append_nil]
      | cons c rest' =>
        obtain ⟨rfl, -⟩ := List.cons.inj hrest
        exact absurd (List.mem_append_right _ List.mem_cons_self) hkey
  · exact fun h => h.trans (List.prefix_append _ _)

variable [DecidableEq α] {sep : α} {key : List α}

lemma search_nil (pattern : List α) : search pattern [] = none := by
  simp [search]

lemma search_cons (pattern : List α) (a : α) (l : List α) :
    search pattern (a :: l) =
      if pattern <+: a :: l ∧ pattern.length < (a :: l).length then some 0
      else (search pattern l).map (· + 1) := by
  unfold search
  rcases Nat.lt_or_ge l.length pattern.length with hlong | hshort
  · have hempty : (a :: l).length - pattern.length = 0 := by
      rw [List.length_cons]
      omega
    have hempty' : l.length - pattern.length = 0 := by omega
    rw [hempty, hempty', if_neg]
    · rfl
    · rw [List.length_cons]
      omega
  · have hlength : (a :: l).length - pattern.length = l.length - pattern.length + 1 := by
      rw [List.length_cons]
      omega
    have hroom : pattern.length < (a :: l).length := by
      rw [List.length_cons]
      omega
    rw [hlength, List.range_succ_eq_map, List.find?_cons, List.find?_map, List.drop_zero]
    by_cases hfound : pattern <+: a :: l
    · rw [if_pos ⟨hfound, hroom⟩]
      simp only [hfound, decide_true]
    · rw [if_neg fun h => hfound h.1]
      simp only [hfound, decide_false]
      rfl

/-- The pattern does not begin inside of a segment. -/
lemma search_append {segment : List α} (h : sep ∉ segment) (rest : List α) :
    search (sep :: key) (segment ++ rest) =
      (search (sep :: key) rest).map (· + segment.length) := by
  induction segment with
  | nil => simp
  | cons a segment ih =>
    obtain ⟨hne, hrest⟩ := not_or.mp (mt List.mem_cons.mpr h)
    have hno : ¬(sep :: key <+: a :: (segment ++ rest)) := by
      rw [List.cons_prefix_cons]
      exact fun hpre => hne hpre.1
    rw [List.cons_append, search_cons, if_neg fun hpre => hno hpre.1, ih hrest, Option.map_map]
    congr 1

/-- Behind one segment, the pattern is found in front of the next or further behind. -/
theorem search_joined_cons {first segment : List α} {segments : List (List α)} (hkey : sep ∉ key)
    (hfirst : sep ∉ first) :
    search (sep :: key) (joined sep (first :: segment :: segments)) =
      if key <+: segment then some first.length
      else (search (sep :: key) (joined sep (segment :: segments))).map (· + 1 + first.length) := by
  rw [joined_cons, search_append hfirst, search_cons]
  have hiff : (sep :: key <+: sep :: joined sep (segment :: segments) ∧
      (sep :: key).length < (sep :: joined sep (segment :: segments)).length) ↔
      key <+: segment := by
    rw [List.cons_prefix_cons, joined_cons, prefix_append_cons_iff hkey]
    constructor
    · exact fun h => h.1.2
    · intro h
      have hle := h.length_le
      refine ⟨⟨rfl, h⟩, ?_⟩
      rw [List.length_cons, List.length_cons, List.length_append, List.length_cons]
      omega
  by_cases hfound : key <+: segment
  · rw [if_pos (hiff.mpr hfound), if_pos hfound, Option.map_some, Nat.zero_add]
  · rw [if_neg (mt hiff.mp hfound), if_neg hfound, Option.map_map]
    rfl

/-- Where no segment behind the first begins with the key, the pattern is not found. -/
theorem search_joined_of_forall_not {first : List α} {segments : List (List α)} (hkey : sep ∉ key)
    (hsep : ∀ segment ∈ first :: segments, sep ∉ segment)
    (hnot : ∀ segment ∈ segments, ¬key <+: segment) :
    search (sep :: key) (joined sep (first :: segments)) = none := by
  induction segments generalizing first with
  | nil =>
    rw [joined_cons, joined_nil, search_append (hsep first List.mem_cons_self), search_cons,
      if_neg (by simp), search_nil]
    rfl
  | cons segment segments ih =>
    rw [List.forall_mem_cons] at hsep hnot
    rw [search_joined_cons hkey hsep.1, if_neg hnot.1, ih hsep.2 hnot.2, Option.map_none]

/-- The pattern is found in front of the first segment that begins with the key: behind its
separator are the segments before it. -/
theorem search_joined_of_prefix {first value : List α} {before after : List (List α)}
    (hkey : sep ∉ key) (hsep : ∀ segment ∈ first :: before, sep ∉ segment)
    (hnot : ∀ segment ∈ before, ¬key <+: segment) :
    (search (sep :: key) (joined sep (first :: (before ++ (key ++ value) :: after)))).map (· + 1) =
      some (joined sep (first :: before)).length := by
  induction before generalizing first with
  | nil =>
    rw [List.nil_append, search_joined_cons hkey (hsep first List.mem_cons_self),
      if_pos (List.prefix_append _ _)]
    simp [joined]
  | cons segment before ih =>
    rw [List.forall_mem_cons] at hsep hnot
    have hrest := ih hsep.2 hnot.2
    obtain ⟨i, hi, hlength⟩ := Option.map_eq_some_iff.mp hrest
    rw [List.cons_append, search_joined_cons hkey hsep.1, if_neg hnot.1, hi, Option.map_some,
      Option.map_some, joined_cons, List.length_append, List.length_cons, ← hlength]
    congr 1
    omega

end SeparatedSearch
