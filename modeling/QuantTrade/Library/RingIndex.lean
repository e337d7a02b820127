import Mathlib.Data.Int.ModEq
import Mathlib.Data.Nat.Bitwise
import Mathlib.Tactic.Common

/-!
# Running counters and their slots

A ring of `N` slots is addressed by counters that run on: the slot of a counter is its value modulo
`N`, which for a power of two is its value masked by `N - 1`.  The counters are machine words and
wrap around; what they stand for are natural numbers that do not.  They number the entries of a log
that only grows at its end.
-/

namespace RingIndex

variable {w : ℕ}

/-- The slot of a counter, when `N` is a power of two that a word can hold. -/
lemma and_mask_ofNat {N : ℕ} (hN : ∃ k < w, N = 2 ^ k) (n : ℕ) :
    (BitVec.ofNat w n).toNat &&& (N - 1) = n % N := by
  obtain ⟨k, hk, rfl⟩ := hN
  rw [Nat.and_two_pow_sub_one_eq_mod, BitVec.toNat_ofNat,
    Nat.mod_mod_of_dvd _ (pow_dvd_pow 2 hk.le)]

/-- The difference of two counters that are less than the word size apart. -/
lemma toNat_sub_ofNat {a b : ℕ} (hba : b ≤ a) (hlt : a - b < 2 ^ w) :
    (BitVec.ofNat w a - BitVec.ofNat w b).toNat = a - b := by
  obtain ⟨d, rfl⟩ := Nat.exists_eq_add_of_le hba
  have hsub : BitVec.ofNat w (b + d) - BitVec.ofNat w b = BitVec.ofNat w d := by
    rw [BitVec.ofNat_add, BitVec.add_comm, BitVec.add_sub_cancel]
  rw [hsub, BitVec.toNat_ofNat, Nat.add_sub_cancel_left, Nat.mod_eq_of_lt (by omega)]

/-- Two counters less than the word size apart are equal as words only if they are equal. -/
lemma eq_of_ofNat_eq {a b : ℕ} (hba : b ≤ a) (hlt : a - b < 2 ^ w)
    (h : BitVec.ofNat w a = BitVec.ofNat w b) : a = b := by
  have hsub := toNat_sub_ofNat hba hlt
  rw [h, BitVec.sub_self, BitVec.toNat_zero] at hsub
  omega

/-- Counters less than `N` apart have different slots. -/
lemma mod_ne_mod {N a b : ℕ} (hab : a < b) (hb : b < a + N) : a % N ≠ b % N := by
  intro h
  obtain ⟨d, rfl⟩ := Nat.exists_eq_add_of_lt hab
  have hmod : 0 ≡ d + 1 [MOD N] :=
    Nat.ModEq.add_left_cancel' a (by simpa [Nat.ModEq, add_assoc] using h)
  rw [Nat.ModEq, Nat.zero_mod, Nat.mod_eq_of_lt (by omega)] at hmod
  omega

/-- Two counters among the `N` from `b` on have different slots. -/
lemma mod_ne_mod_of_window {N b m n : ℕ} (hm : b ≤ m ∧ m < b + N) (hn : b ≤ n ∧ n < b + N)
    (hne : m ≠ n) : m % N ≠ n % N := by
  rcases lt_or_gt_of_ne hne with hlt | hgt
  · exact mod_ne_mod hlt (by omega)
  · exact (mod_ne_mod hgt (by omega)).symm

/-- Of the `N` counters from `b` on, one has the slot of a given counter. -/
lemma exists_mod_eq {N : ℕ} (hN : 0 < N) (b p : ℕ) :
    ∃ n, (b ≤ n ∧ n < b + N) ∧ n % N = p % N := by
  obtain ⟨z, hz, hmod⟩ := Int.existsUnique_equiv_nat ((p : ℤ) - b) (Int.natCast_pos.mpr hN)
  refine ⟨b + z, ⟨Nat.le_add_right b z, by omega⟩, ?_⟩
  have hsum : ((b + z : ℕ) : ℤ) ≡ p [ZMOD N] := by
    have hadd := hmod.add_left (b : ℤ)
    rwa [add_sub_cancel, ← Nat.cast_add] at hadd
  exact Int.natCast_modEq_iff.mp hsum

/-! ## The entries of a log -/

section Log

variable {α : Type*} {log : List α} {a e : α} {n : ℕ}

/-- An entry stays where it is when others are added. -/
lemma getElem?_append_of_eq_some (he : log[n]? = some e) (log' : List α) :
    (log ++ log')[n]? = some e := by
  rw [List.getElem?_append_left (List.getElem?_eq_some_iff.mp he).1]
  exact he

/-- An entry of a log with one more is an earlier one or the one added. -/
lemma getElem?_concat_eq_some (he : (log ++ [a])[n]? = some e) :
    log[n]? = some e ∨ n = log.length ∧ e = a := by
  rcases lt_trichotomy n log.length with hlt | rfl | hgt
  · rw [List.getElem?_append_left hlt] at he
    exact Or.inl he
  · rw [List.getElem?_concat_length] at he
    exact Or.inr ⟨rfl, (Option.some.inj he).symm⟩
  · rw [List.getElem?_eq_none (by simp; omega)] at he
    cases he

end Log

end RingIndex
