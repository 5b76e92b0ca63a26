import Mathlib.Data.Nat.Bitwise

/-! The bits of a byte, addressed by one-bit masks counted from the least significant bit
(`lowMask`) or from the most significant one (`highMask`). -/

namespace Library.Bits

/-- `1 << k`. -/
def lowMask (k : ℕ) : UInt8 := 1 <<< UInt8.ofNat k

/-- `0x80 >> k`. -/
def highMask (k : ℕ) : UInt8 := 0x80 >>> UInt8.ofNat k

/-- The bit of `b` that `mask` selects is set. -/
def test (b mask : UInt8) : Bool := b &&& mask ≠ 0

theorem or_and (a b c : UInt8) : (a ||| b) &&& c = (a &&& c) ||| (b &&& c) := by
  apply UInt8.toBitVec_inj.mp
  simp only [UInt8.toBitVec_and, UInt8.toBitVec_or]
  exact BitVec.and_or_distrib_right

theorem not_and_of_and_eq_zero {a b : UInt8} (h : a &&& b = 0) : ~~~a &&& b = b := by
  have hsplit : (a ||| ~~~a) &&& b = b := by simp
  rwa [or_and, h, UInt8.zero_or] at hsplit

/-- The bits of a byte inside and outside a mask. -/
theorem split (b mask : UInt8) : (mask &&& b) ||| (~~~mask &&& b) = b := by
  rw [← or_and]
  simp

theorem clear_set {b mask : UInt8} (h : b &&& mask = mask) : (b &&& ~~~mask) ||| mask = b := by
  have hsplit := split b mask
  rw [UInt8.and_comm, h] at hsplit
  rwa [UInt8.or_comm, UInt8.and_comm]

theorem set_clear {b mask : UInt8} (h : b &&& mask = 0) : (b ||| mask) &&& ~~~mask = b := by
  have hsplit := split b mask
  rw [UInt8.and_comm, h, UInt8.zero_or, UInt8.and_comm] at hsplit
  rw [or_and, hsplit]
  simp

/-- A mask of one bit selects all of itself or nothing. -/
theorem and_mask {b mask : UInt8} {j : ℕ} (h : mask.toNat = 2 ^ j) : b &&& mask = 0 ∨ b &&& mask = mask := by
  have hand : (b &&& mask).toNat = (b.toNat.testBit j).toNat * mask.toNat := by
    rw [UInt8.toNat_and, h, Nat.and_two_pow]
  cases hbit : b.toNat.testBit j with
  | false =>
    refine .inl (UInt8.toNat_inj.mp ?_)
    rw [hand, hbit]
    exact Nat.zero_mul _
  | true =>
    refine .inr (UInt8.toNat_inj.mp ?_)
    rw [hand, hbit]
    exact Nat.one_mul _

theorem test_zero (mask : UInt8) : test 0 mask = false := by
  rw [test, UInt8.zero_and]
  rfl

theorem test_clear_self (b mask : UInt8) : test (b &&& ~~~mask) mask = false := by
  simp [test, UInt8.and_assoc]

theorem test_clear_other {b mask other : UInt8} (h : mask &&& other = 0) :
    test (b &&& ~~~mask) other = test b other := by
  simp only [test, UInt8.and_assoc, not_and_of_and_eq_zero h]

theorem test_set_self {b mask : UInt8} (h : mask ≠ 0) : test (b ||| mask) mask = true := by
  have hself : (b ||| mask) &&& mask = mask := by
    apply UInt8.toBitVec_inj.mp
    simp only [UInt8.toBitVec_and, UInt8.toBitVec_or]
    ext i hi
    simpa using Or.inr
  simp [test, hself, h]

theorem test_set_other {b mask other : UInt8} (h : mask &&& other = 0) :
    test (b ||| mask) other = test b other := by
  simp [test, or_and, h]

theorem lowMask_ne_zero : ∀ k < 8, lowMask k ≠ 0 := by decide

theorem highMask_ne_zero : ∀ k < 8, highMask k ≠ 0 := by decide

theorem lowMask_and_lowMask : ∀ j < 8, ∀ k < 8, j ≠ k → lowMask j &&& lowMask k = 0 := by decide

theorem highMask_and_highMask : ∀ j < 8, ∀ k < 8, j ≠ k → highMask j &&& highMask k = 0 := by
  decide

theorem lowMask_toNat : ∀ k < 8, (lowMask k).toNat = 2 ^ k := by decide

theorem highMask_toNat : ∀ k < 8, (highMask k).toNat = 2 ^ (7 - k) := by decide

/-- A byte other than 0 has a bit that is set. -/
theorem exists_test_highMask {b : UInt8} (h : b ≠ 0) : ∃ k < 8, test b (highMask k) = true := by
  apply Decidable.byContradiction
  intro hnone
  have hzero : ∀ k < 8, highMask k &&& b = 0 := fun k hk => by
    have hbit : ¬test b (highMask k) = true := fun hset => hnone ⟨k, hk, hset⟩
    rw [UInt8.and_comm]
    simpa [test] using hbit
  -- The eight masks make up all of the byte.
  have hall : (highMask 0 ||| highMask 1 ||| highMask 2 ||| highMask 3 ||| highMask 4 |||
      highMask 5 ||| highMask 6 ||| highMask 7) &&& b = 0 := by
    simp [or_and, hzero]
  apply h
  rw [← hall, show highMask 0 ||| highMask 1 ||| highMask 2 ||| highMask 3 ||| highMask 4 |||
    highMask 5 ||| highMask 6 ||| highMask 7 = -1 by decide, UInt8.neg_one_and]

end Library.Bits
