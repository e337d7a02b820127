import Mathlib.Data.Nat.Digits.Defs
import Mathlib.Tactic.Common

/-!
# Little-endian integers

Unsigned integers as bytes, the least significant one first.  `encode w n` writes the lowest `w`
bytes of `n`; `decode` reads any number of bytes.
-/

namespace LittleEndian

/-- The lowest `w` bytes of a number. -/
def encode : ℕ → ℕ → List UInt8
  | 0, _ => []
  | w + 1, n => UInt8.ofNat n :: encode w (n / 256)

/-- The number with these bytes. -/
def decode (bytes : List UInt8) : ℕ :=
  Nat.ofDigits 256 (bytes.map UInt8.toNat)

/-- The lowest `w` bytes of a number in two's complement. -/
def encodeInt (w : ℕ) (x : ℤ) : List UInt8 :=
  encode w (x % 256 ^ w).toNat

/-- The number with these bytes in two's complement. -/
def decodeInt (bytes : List UInt8) : ℤ :=
  (decode bytes : ℤ).bmod (256 ^ bytes.length)

@[simp] lemma length_encode (w n : ℕ) : (encode w n).length = w := by
  induction w generalizing n with
  | zero => rfl
  | succ w ih => rw [encode, List.length_cons, ih]

@[simp] lemma length_encodeInt (w : ℕ) (x : ℤ) : (encodeInt w x).length = w :=
  length_encode _ _

/-- Reading what was written gives the number modulo the size of the word. -/
lemma decode_encode (w n : ℕ) : decode (encode w n) = n % 256 ^ w := by
  induction w generalizing n with
  | zero => rw [pow_zero, Nat.mod_one]; rfl
  | succ w ih =>
    have hcons : decode (encode (w + 1) n) = n % 256 + 256 * decode (encode w (n / 256)) := by
      simp [decode, encode, Nat.ofDigits_cons]
    rw [hcons, ih, pow_succ', Nat.mod_mul]

/-- A number that fits is read as it was written. -/
lemma decode_encode_of_lt {w n : ℕ} (h : n < 256 ^ w) : decode (encode w n) = n := by
  rw [decode_encode, Nat.mod_eq_of_lt h]

/-- The first byte counts once, the others 256 times. -/
lemma decode_cons (b : UInt8) (bytes : List UInt8) :
    decode (b :: bytes) = b.toNat + 256 * decode bytes := by
  rw [decode, List.map_cons, Nat.ofDigits_cons, decode]

/-- The bytes bound the number. -/
lemma decode_lt (bytes : List UInt8) : decode bytes < 256 ^ bytes.length := by
  induction bytes with
  | nil => decide
  | cons b bytes ih =>
    have hb := b.toNat_lt
    rw [decode_cons, List.length_cons, pow_succ]
    omega

/-- Writing what was read gives the bytes. -/
lemma encode_decode (bytes : List UInt8) : encode bytes.length (decode bytes) = bytes := by
  induction bytes with
  | nil => rfl
  | cons b bytes ih =>
    have hlow : UInt8.ofNat (b.toNat + 256 * decode bytes) = b := by
      apply UInt8.toNat_inj.mp
      rw [UInt8.toNat_ofNat']
      have hb := b.toNat_lt
      omega
    have hhigh : (b.toNat + 256 * decode bytes) / 256 = decode bytes := by
      have hb := b.toNat_lt
      omega
    rw [List.length_cons, decode_cons, encode, hlow, hhigh, ih]

end LittleEndian
