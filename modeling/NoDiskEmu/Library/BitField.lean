import Mathlib.Data.Nat.Notation
import Mathlib.Tactic.Ring

/-! Fields of bits in a sequence of bytes, with the bits numbered from the most significant one of the
first byte on. -/

namespace Library.BitField

/-- Bit `n` of the sequence. -/
def bitAt (buf : ℕ → UInt8) (n : ℕ) : ℕ := (buf (n / 8)).toNat / 2 ^ (7 - n % 8) % 2

/-- The value of the bits from `start` on, the first of them the most significant one. -/
def field (buf : ℕ → UInt8) (start : ℕ) : ℕ → ℕ
  | 0 => 0
  | n + 1 => 2 * field buf start n + bitAt buf (start + n)

variable {f : ℕ → UInt8}

theorem bitAt_le (n : ℕ) : bitAt f n ≤ 1 := by
  have := Nat.mod_lt ((f (n / 8)).toNat / 2 ^ (7 - n % 8)) (show 0 < 2 by decide)
  rw [bitAt]
  omega

theorem field_lt (start n : ℕ) : field f start n < 2 ^ n := by
  induction n with
  | zero => exact Nat.one_pos
  | succ n ih =>
    have := bitAt_le (f := f) (start + n)
    rw [field, pow_succ]
    omega

/-- A field in two parts. -/
theorem field_add (start m n : ℕ) :
    field f start (m + n) = field f start m * 2 ^ n + field f (start + m) n := by
  induction n with
  | zero => simp [field]
  | succ n ih =>
    rw [← Nat.add_assoc, field, ih, field, pow_succ, Nat.add_assoc start m n]
    ring

/-- A field inside a byte. -/
theorem field_byte (q k n : ℕ) (h : k + n ≤ 8) :
    field f (8 * q + k) n = (f q).toNat / 2 ^ (8 - k - n) % 2 ^ n := by
  induction n with
  | zero => simp [field, Nat.mod_one]
  | succ n ih =>
    have hquot : (8 * q + k + n) / 8 = q := by omega
    have hmod : (8 * q + k + n) % 8 = k + n := by omega
    rw [field, ih (by omega), bitAt, hquot, hmod,
      show 8 - k - n = 8 - k - (n + 1) + 1 by omega, show 7 - (k + n) = 8 - k - (n + 1) by omega]
    generalize 8 - k - (n + 1) = e
    rw [pow_succ 2 e, ← Nat.div_div_eq_div_mul, pow_succ, Nat.mul_comm (2 ^ n) 2, Nat.mod_mul]
    omega

theorem field_whole (q : ℕ) : field f (8 * q) 8 = (f q).toNat := by
  have h := field_byte (f := f) q 0 8 (by decide)
  rw [Nat.add_zero] at h
  rw [h, Nat.pow_zero, Nat.div_one]
  exact Nat.mod_eq_of_lt (f q).toNat_lt

end Library.BitField
