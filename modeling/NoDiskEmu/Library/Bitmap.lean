import Mathlib.Logic.Function.Basic
import NoDiskEmu.Library.Bits

/-! Bitmaps stored in bytes, least significant bit first, and the circular search for a clear
bit. -/

namespace Library.Bitmap

open Library.Bits

def setBit (bitmap : ℕ → UInt8) (bit : ℕ) (state : Bool) : ℕ → UInt8 :=
  Function.update bitmap (bit / 8)
    (if state then bitmap (bit / 8) ||| lowMask (bit % 8)
      else bitmap (bit / 8) &&& ~~~lowMask (bit % 8))

def getBit (bitmap : ℕ → UInt8) (bit : ℕ) : Bool :=
  test (bitmap (bit / 8)) (lowMask (bit % 8))

variable {bitmap : ℕ → UInt8} {i j : ℕ} {state : Bool}

@[simp] theorem getBit_setBit_self : getBit (setBit bitmap i state) i = state := by
  have hlt := Nat.mod_lt i (show 8 > 0 by decide)
  cases state
  · simp [getBit, setBit, test_clear_self]
  · simp [getBit, setBit, test_set_self (lowMask_ne_zero _ hlt)]

theorem getBit_setBit_ne (h : j ≠ i) : getBit (setBit bitmap i state) j = getBit bitmap j := by
  by_cases hbyte : j / 8 = i / 8
  · have hapart : lowMask (i % 8) &&& lowMask (j % 8) = 0 :=
      lowMask_and_lowMask _ (Nat.mod_lt _ (by decide)) _ (Nat.mod_lt _ (by decide)) (by omega)
    cases state
    · simp [getBit, setBit, hbyte, test_clear_other hapart]
    · simp [getBit, setBit, hbyte, test_set_other hapart]
  · simp [getBit, setBit, Function.update_of_ne hbyte]

@[simp] theorem getBit_zero : getBit (fun _ => 0) i = false := by
  simp [getBit, test]

/-- The search for a clear bit of a `uint8_t` cursor that starts at `start` and wraps from `count`
to 0: `0xff` when it is back at `start`, and nothing when it is still running after `fuel` steps. -/
def scanFree (bitmap : ℕ → UInt8) (count start : ℕ) : ℕ → ℕ → Option ℕ
  | 0, _ => none
  | fuel + 1, cur =>
    if getBit bitmap cur then
      let next := if (cur + 1) % 256 = count then 0 else (cur + 1) % 256
      if next = start then some 0xff else scanFree bitmap count start fuel next
    else some cur

theorem getBit_of_scanFree {count start fuel cur r : ℕ}
    (h : scanFree bitmap count start fuel cur = some r) (hr : r ≠ 0xff) : getBit bitmap r = false := by
  induction fuel generalizing cur with
  | zero => cases h
  | succ fuel ih =>
    rw [scanFree] at h
    by_cases hbit : getBit bitmap cur = true
    · rw [if_pos hbit] at h
      by_cases hback : (if (cur + 1) % 256 = count then 0 else (cur + 1) % 256) = start
      · rw [if_pos hback] at h
        exact absurd (Option.some.inj h).symm hr
      · rw [if_neg hback] at h
        exact ih h
    · rw [if_neg hbit] at h
      rw [← Option.some.inj h]
      simpa using hbit

theorem scanFree_lt {count start fuel cur r : ℕ} (hcur : cur < 256)
    (h : scanFree bitmap count start fuel cur = some r) : r < 256 := by
  induction fuel generalizing cur with
  | zero => cases h
  | succ fuel ih =>
    rw [scanFree] at h
    by_cases hbit : getBit bitmap cur = true
    · rw [if_pos hbit] at h
      by_cases hback : (if (cur + 1) % 256 = count then 0 else (cur + 1) % 256) = start
      · rw [if_pos hback] at h
        rw [← Option.some.inj h]
        decide
      · rw [if_neg hback] at h
        exact ih (by split <;> omega) h
    · rw [if_neg hbit] at h
      rwa [← Option.some.inj h]

/-- The bits that the search has passed when its cursor is at `cur`. -/
def Passed (bitmap : ℕ → UInt8) (count start cur : ℕ) : Prop :=
  ∀ i < count, (if start ≤ cur then start ≤ i ∧ i < cur else start ≤ i ∨ i < cur) →
    getBit bitmap i = true

theorem scanFree_of_passed {count start : ℕ} (hcount : count < 256) (hstart : start < count)
    {fuel cur : ℕ} (hcur : cur < count) (hpassed : Passed bitmap count start cur)
    (hfuel : (if start ≤ cur then count + start - cur else start - cur) ≤ fuel) :
    ∃ r, scanFree bitmap count start fuel cur = some r ∧
      (r < count ∧ getBit bitmap r = false ∨
        r = 0xff ∧ ∀ i < count, getBit bitmap i = true) := by
  induction fuel generalizing cur with
  | zero => split at hfuel <;> omega
  | succ fuel ih =>
    rw [scanFree, Nat.mod_eq_of_lt (show cur + 1 < 256 by omega)]
    split
    · next hbit =>
      have hnext : Passed bitmap count start (cur + 1) := by
        intro i hi hrange
        by_cases heq : i = cur
        · rwa [heq]
        · refine hpassed i hi ?_
          split at hrange <;> split <;> omega
      simp only
      split
      · next hwrap =>
        split
        · next hzero =>
          refine ⟨0xff, rfl, .inr ⟨rfl, fun i hi => hnext i hi ?_⟩⟩
          rw [if_pos (by omega)]
          omega
        · next hzero =>
          have hle : start ≤ cur := by
            by_contra hlt
            omega
          refine ih (by omega) (fun i hi hrange => hnext i hi ?_) ?_
          · rw [if_neg (by omega)] at hrange
            rw [if_pos (by omega)]
            omega
          · rw [if_pos hle] at hfuel
            rw [if_neg (by omega)]
            omega
      · next hwrap =>
        split
        · next heq =>
          refine ⟨0xff, rfl, .inr ⟨rfl, fun i hi => ?_⟩⟩
          by_cases hcase : i = cur
          · rwa [hcase]
          · refine hpassed i hi ?_
            rw [if_neg (by omega)]
            omega
        · next hne =>
          refine ih (by omega) hnext ?_
          split at hfuel <;> split <;> omega
    · next hbit => exact ⟨cur, rfl, .inl ⟨hcur, by simpa using hbit⟩⟩

/-- A search that starts in range ends, at a clear bit or with `0xff` when all bits are set. -/
theorem scanFree_cases (bitmap : ℕ → UInt8) {count start : ℕ} (hcount : count < 256)
    (hstart : start < count) :
    ∃ r, scanFree bitmap count start 257 start = some r ∧
      (r < count ∧ getBit bitmap r = false ∨
        r = 0xff ∧ ∀ i < count, getBit bitmap i = true) := by
  refine scanFree_of_passed hcount hstart hstart (fun i _ hrange => ?_) ?_
  · rw [if_pos (Nat.le_refl _)] at hrange
    omega
  · rw [if_pos (Nat.le_refl _)]
    omega

end Library.Bitmap
