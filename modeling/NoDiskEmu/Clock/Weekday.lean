import NoDiskEmu.Library.Calendar
import Mathlib.Data.UInt
import Mathlib.Tactic.IntervalCases

/-! The day of the week that `T-W` computes for a date (`day_of_week` of `doscmd.c`). -/

namespace NoDiskEmu.Clock

open Library.Calendar

/-- `day_of_week`; the year counts from 1900, and the months from 1. -/
def dayOfWeek (y : UInt16) (m d : UInt8) : UInt8 :=
  let y := y + 1900
  -- The year is added to the day in the `uint8_t` of the parameter.
  let d := d + (if m < 3 then y else y - 2).toUInt8
  let y := if m < 3 then y - 1 else y
  ((23 * m.toUInt16 / 9 + d.toUInt16 + 4 + y / 4 - y / 100 + y / 400) % 7).toUInt8

/-- The year as the formula adds it to the day. -/
def foldedYear (y m : ℕ) : ℕ := if m < 3 then y else y - 2

/-- The year whose leap days the formula counts; it ends with February. -/
def marchYear (y m : ℕ) : ℕ := if m < 3 then y - 1 else y

/-- The formula of `day_of_week` on numbers without a bound. -/
def keith (y m d : ℕ) : ℕ :=
  23 * m / 9 + d + 4 + marchYear y m / 4 - marchYear y m / 100 + marchYear y m / 400

section

variable {y m d : ℕ}

/-- The formula gives the day of the week. -/
theorem weekday_eq (hy : 2 ≤ y) (h : IsDate y m d) :
    weekday y m d = keith y m (d + foldedYear y m) % 7 := by
  have hlow := h.month_pos
  have hhigh := h.month_le
  have hpos := h.day_pos
  rw [weekday, dayNumber, keith, foldedYear, marchYear]
  by_cases hm : m < 3
  · obtain ⟨z, rfl⟩ : ∃ z, y = z + 1 := ⟨y - 1, by omega⟩
    have hyear := yearStart_succ z
    rw [if_pos hm, if_pos hm, Nat.add_sub_cancel]
    have hmonth : monthStart (isLeap (z + 1)) m = 31 * (m - 1) := by
      cases isLeap (z + 1) <;> interval_cases m <;> rfl
    interval_cases m <;> omega
  · have hyear := yearStart_succ y
    have hmonth := yearStart_add_monthStart (y := y) (Nat.not_lt.mp hm) (show m ≤ 13 by omega)
    rw [if_neg hm, if_neg hm]
    -- `23 * m / 9` counts the days before a month beyond four weeks each
    have hmonths : monthStart false m + 4 = 28 * (m - 1) + 23 * m / 9 := by
      interval_cases m <;> rfl
    omega

end

section

variable {y : UInt16} {m d : UInt8}

/-- The formula does not overflow the 16 bits. -/
theorem toNat_formula (hm : m.toNat ≤ 12) (z : UInt16) :
    ((23 * m.toUInt16 / 9 + d.toUInt16 + 4 + z / 4 - z / 100 + z / 400) % 7).toUInt8.toNat =
      (23 * m.toNat / 9 + d.toNat + 4 + z.toNat / 4 - z.toNat / 100 + z.toNat / 400) % 7 := by
  have hd := d.toNat_lt
  have hz := z.toNat_lt
  have hquot : 23 * m.toNat / 9 ≤ 30 := by omega
  have hquarter : z.toNat / 4 < 16384 := by omega
  have hsum : (23 * m.toUInt16 / 9 + d.toUInt16 + 4 + z / 4).toNat =
      23 * m.toNat / 9 + d.toNat + 4 + z.toNat / 4 := by
    simp only [UInt16.toNat_add, UInt16.toNat_mul, UInt16.toNat_div, UInt8.toNat_toUInt16, UInt16.reduceToNat]
    rw [Nat.mod_eq_of_lt (show 23 * m.toNat < 2 ^ 16 by omega)]
    generalize 23 * m.toNat / 9 = q at hquot
    generalize z.toNat / 4 = r at hquarter
    rw [Nat.mod_eq_of_lt (show q + d.toNat < 2 ^ 16 by omega),
      Nat.mod_eq_of_lt (show q + d.toNat + 4 < 2 ^ 16 by omega), Nat.mod_eq_of_lt (by omega)]
  have hle : z / 100 ≤ 23 * m.toUInt16 / 9 + d.toUInt16 + 4 + z / 4 := by
    rw [UInt16.le_iff_toNat_le, hsum, UInt16.toNat_div]
    simp only [UInt16.reduceToNat]
    omega
  rw [UInt16.toNat_toUInt8, UInt16.toNat_mod, UInt16.toNat_add, UInt16.toNat_sub_of_le _ _ hle, hsum,
    UInt16.toNat_div, UInt16.toNat_div]
  simp only [UInt16.reduceToNat]
  generalize 23 * m.toNat / 9 = q at hquot
  have hbound : q + d.toNat + 4 + z.toNat / 4 - z.toNat / 100 + z.toNat / 400 < 2 ^ 16 := by omega
  rw [Nat.mod_eq_of_lt hbound]
  exact Nat.mod_eq_of_lt (Nat.lt_trans (Nat.mod_lt _ (by decide)) (by decide))

theorem toNat_dayOfWeek (hy : y.toNat + 1900 < 65536) (h : IsDate (y.toNat + 1900) m.toNat d.toNat) :
    (dayOfWeek y m d).toNat =
      keith (y.toNat + 1900) m.toNat ((d.toNat + foldedYear (y.toNat + 1900) m.toNat) % 256) % 7 := by
  have hmonth := h.month_le
  have hyear : (y + 1900).toNat = y.toNat + 1900 := by
    rw [UInt16.toNat_add]
    simp only [UInt16.reduceToNat]
    omega
  have hsub : ∀ k : UInt16, k.toNat ≤ 1900 → (y + 1900 - k).toNat = y.toNat + 1900 - k.toNat := by
    intro k hk
    rw [UInt16.toNat_sub_of_le, hyear]
    rw [UInt16.le_iff_toNat_le, hyear]
    omega
  have hone := hsub 1 (by decide)
  have htwo := hsub 2 (by decide)
  simp only [UInt16.reduceToNat] at hone htwo
  simp only [dayOfWeek, toNat_formula hmonth, keith, foldedYear, marchYear]
  have hlt : m < 3 ↔ m.toNat < 3 := UInt8.lt_iff_toNat_lt
  by_cases hm : m.toNat < 3
  · rw [if_pos (hlt.mpr hm), if_pos (hlt.mpr hm), if_pos hm, if_pos hm, UInt8.toNat_add,
      UInt16.toNat_toUInt8, hyear, hone, Nat.add_mod_mod]
  · rw [if_neg (mt hlt.mp hm), if_neg (mt hlt.mp hm), if_neg hm, if_neg hm, UInt8.toNat_add,
      UInt16.toNat_toUInt8, hyear, htwo, Nat.add_mod_mod]

theorem toUInt8_mod_lt (x : UInt16) : (x % 7).toUInt8 < 7 := by
  rw [UInt8.lt_iff_toNat_lt, UInt16.toNat_toUInt8, UInt16.toNat_mod]
  exact Nat.lt_of_le_of_lt (Nat.mod_le _ _) (Nat.mod_lt _ (by decide))

theorem dayOfWeek_lt (y : UInt16) (m d : UInt8) : dayOfWeek y m d < 7 := toUInt8_mod_lt _

/-- The result is the day of the week exactly when the bits that the `uint8_t` drops are a multiple
of 7 times 256. -/
theorem dayOfWeek_iff (hy : y.toNat + 1900 < 65536) (h : IsDate (y.toNat + 1900) m.toNat d.toNat) :
    (dayOfWeek y m d).toNat = weekday (y.toNat + 1900) m.toNat d.toNat ↔
      (d.toNat + foldedYear (y.toNat + 1900) m.toNat) / 256 % 7 = 0 := by
  rw [toNat_dayOfWeek hy h, weekday_eq (by omega) h, keith, keith]
  omega

end

/-- A Saturday of 2008. -/
theorem dayOfWeek_saturday : (108 : UInt16).toNat + 1900 < 65536 ∧ IsDate 2008 8 2 ∧
    ((dayOfWeek 108 8 2).toNat = weekday 2008 8 2 ↔ (2 + foldedYear 2008 8) / 256 % 7 = 0) :=
  have hdate : IsDate ((108 : UInt16).toNat + 1900) (8 : UInt8).toNat (2 : UInt8).toNat := by decide
  ⟨by decide, hdate, dayOfWeek_iff (by decide) hdate⟩

/-- 31 January 2017 was a Tuesday; the function says Friday. -/
theorem dayOfWeek_wrong : ¬∀ (y : UInt16) (m d : UInt8), y.toNat + 1900 < 65536 →
    IsDate (y.toNat + 1900) m.toNat d.toNat →
    (dayOfWeek y m d).toNat = weekday (y.toNat + 1900) m.toNat d.toNat := by
  intro h
  have hfriday := h 117 1 31 (by decide) (by decide)
  revert hfriday
  decide +kernel

end NoDiskEmu.Clock
