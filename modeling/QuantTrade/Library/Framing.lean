import Mathlib.Data.List.Basic
import Mathlib.Data.List.Infix
import Mathlib.Tactic.Common

/-!
# Streams of frames

A stream is the concatenation of the encodings of some frames.  What has arrived of it is cut into
the encodings of the first frames and an incomplete rest, which is shorter than the next frame
(`exists_cut`).
-/

namespace Framing

variable {α β : Type*}

/-- The list is a part of the encoding of the first frame, and not all of it; without a frame it is
empty. -/
def Incomplete (encode : β → List α) (frames : List β) (l : List α) : Prop :=
  match frames with
  | [] => l = []
  | f :: _ => l <+: encode f ∧ l.length < (encode f).length

/-- Nothing is an incomplete frame. -/
lemma incomplete_nil {encode : β → List α} {frames : List β} (h : ∀ f, encode f ≠ []) :
    Incomplete encode frames [] := by
  cases frames with
  | nil => rfl
  | cons f frames => exact ⟨List.nil_prefix, List.length_pos_iff.mpr (h f)⟩

/-- What has arrived is cut into complete frames and an incomplete rest. -/
theorem exists_cut (encode : β → List α) {frames : List β} {l : List α}
    (h : l <+: frames.flatMap encode) :
    ∃ done left rest, frames = done ++ left ∧ l = done.flatMap encode ++ rest ∧
      Incomplete encode left rest := by
  induction frames generalizing l with
  | nil =>
    obtain rfl : l = [] := List.prefix_nil.mp h
    exact ⟨[], [], [], rfl, rfl, rfl⟩
  | cons f frames ih =>
    rw [List.flatMap_cons] at h
    rcases Nat.lt_or_ge l.length (encode f).length with hlt | hge
    · refine ⟨[], f :: frames, l, rfl, rfl, ?_, hlt⟩
      exact List.prefix_of_prefix_length_le h (List.prefix_append _ _) hlt.le
    · obtain ⟨l', rfl⟩ := List.prefix_of_prefix_length_le (List.prefix_append _ _) h hge
      obtain ⟨done, left, rest, rfl, rfl, hrest⟩ := ih ((List.prefix_append_right_inj _).mp h)
      exact ⟨f :: done, left, rest, rfl, by rw [List.flatMap_cons, List.append_assoc], hrest⟩

/-- Where all encodings have the same length, that of the stream is a multiple of it. -/
lemma length_flatMap {encode : β → List α} {n : ℕ} (hlength : ∀ f, (encode f).length = n)
    (frames : List β) : (frames.flatMap encode).length = n * frames.length := by
  induction frames with
  | nil => rfl
  | cons f frames ih =>
    rw [List.flatMap_cons, List.length_append, hlength, ih, List.length_cons, Nat.mul_succ,
      Nat.add_comm]

/-- Where all encodings have the same length, the frames from one on begin at a multiple of it. -/
lemma drop_flatMap {encode : β → List α} {n : ℕ} (hlength : ∀ f, (encode f).length = n)
    (frames : List β) (i : ℕ) :
    (frames.flatMap encode).drop (n * i) = (frames.drop i).flatMap encode := by
  induction i generalizing frames with
  | zero => simp
  | succ i ih =>
    cases frames with
    | nil => simp
    | cons f frames =>
      have hskip : n * (i + 1) = (encode f).length + n * i := by
        rw [hlength, Nat.mul_succ, Nat.add_comm]
      rw [List.flatMap_cons, hskip, ← List.drop_drop, List.drop_left, ih, List.drop_succ_cons]

/-- A whole stream leaves no rest. -/
lemma eq_nil_of_incomplete {encode : β → List α} {left : List β} {rest : List α}
    (h : Incomplete encode left rest) (hall : rest = left.flatMap encode) :
    left = [] ∧ rest = [] := by
  cases left with
  | nil => exact ⟨rfl, h⟩
  | cons f left =>
    have hlt := h.2
    rw [hall, List.flatMap_cons, List.length_append] at hlt
    omega

end Framing
