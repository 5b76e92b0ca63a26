import Mathlib.Data.Nat.Notation
import Mathlib.Order.Monotone.Basic
import Mathlib.Tactic.IntervalCases

/-! The proleptic Gregorian calendar, by counting the days of its months and years. -/

namespace Library.Calendar

/-- A year of 366 days. -/
def isLeap (y : ℕ) : Bool := y % 4 = 0 && (y % 100 ≠ 0 || y % 400 = 0)

/-- The days of a month, from 1 for January. -/
def monthLength (leap : Bool) : ℕ → ℕ
  | 2 => if leap then 29 else 28
  | 4 | 6 | 9 | 11 => 30
  | 1 | 3 | 5 | 7 | 8 | 10 | 12 => 31
  | _ => 0

/-- The days of a year before a month. -/
def monthStart (leap : Bool) : ℕ → ℕ
  | 0 => 0
  | m + 1 => monthStart leap m + monthLength leap m

def yearLength (y : ℕ) : ℕ := monthStart (isLeap y) 13

/-- The days before a year, from the first day of year 0 on. -/
def yearStart : ℕ → ℕ
  | 0 => 0
  | y + 1 => yearStart y + yearLength y

structure IsDate (y m d : ℕ) : Prop where
  month_pos : 1 ≤ m
  month_le : m ≤ 12
  day_pos : 1 ≤ d
  day_le : d ≤ monthLength (isLeap y) m

instance (y m d : ℕ) : Decidable (IsDate y m d) :=
  decidable_of_iff (1 ≤ m ∧ m ≤ 12 ∧ 1 ≤ d ∧ d ≤ monthLength (isLeap y) m)
    ⟨fun h => ⟨h.1, h.2.1, h.2.2.1, h.2.2.2⟩, fun h => ⟨h.1, h.2, h.3, h.4⟩⟩

/-- The days from the first day of year 0 to a date. -/
def dayNumber (y m d : ℕ) : ℕ := yearStart y + monthStart (isLeap y) m + (d - 1)

/-- The day of the week, from 0 for Sunday; the first day of year 0 is a Saturday. -/
def weekday (y m d : ℕ) : ℕ := (dayNumber y m d + 6) % 7

theorem monthLength_le (leap : Bool) (m : ℕ) : monthLength leap m ≤ 31 := by
  unfold monthLength
  repeat' split
  all_goals decide

theorem monthLength_false_le (leap : Bool) (m : ℕ) : monthLength false m ≤ monthLength leap m := by
  unfold monthLength
  split
  · cases leap <;> decide
  all_goals exact Nat.le_refl _

theorem yearLength_eq (y : ℕ) : yearLength y = if isLeap y then 366 else 365 := by
  rw [yearLength]
  cases isLeap y <;> rfl

theorem isLeap_iff (y : ℕ) : isLeap y = true ↔ y % 4 = 0 ∧ (y % 100 ≠ 0 ∨ y % 400 = 0) := by
  simp [isLeap]

theorem yearStart_add_one (y : ℕ) : yearStart (y + 1) = yearStart y + yearLength y := rfl

-- A year is a literal of four digits, and `yearStart` would count down from it.
attribute [irreducible] yearStart

/-- The leap years are those divisible by 4 but not by 100, and those divisible by 400. -/
theorem yearStart_succ (y : ℕ) : yearStart (y + 1) + y / 100 = 365 * (y + 1) + y / 4 + y / 400 + 1 := by
  induction y with
  | zero =>
    rw [yearStart_add_one, yearStart]
    decide
  | succ y ih =>
    rw [yearStart_add_one, yearLength_eq]
    have hleap := isLeap_iff (y + 1)
    by_cases h : isLeap (y + 1) = true
    · rw [if_pos h]
      have := hleap.mp h
      omega
    · rw [if_neg h]
      have := mt hleap.mpr h
      omega

theorem monthStart_mono (leap : Bool) : Monotone (monthStart leap) :=
  monotone_nat_of_le_succ fun _ => Nat.le_add_right _ _

theorem yearStart_mono : Monotone yearStart := by
  apply monotone_nat_of_le_succ
  intro y
  rw [yearStart_add_one]
  exact Nat.le_add_right _ _

section Dates

variable {y m d y' m' d' : ℕ}

theorem monthStart_leap (hlow : 3 ≤ m) (hhigh : m ≤ 13) :
    monthStart true m = monthStart false m + 1 := by
  interval_cases m <;> rfl

/-- The days before a month from March on, from the end of the year before on. -/
theorem yearStart_add_monthStart (hlow : 3 ≤ m) (hhigh : m ≤ 13) :
    yearStart y + monthStart (isLeap y) m + 365 = yearStart (y + 1) + monthStart false m := by
  rw [yearStart_add_one, yearLength_eq]
  cases isLeap y with
  | false =>
    rw [if_neg (by decide)]
    omega
  | true =>
    rw [if_pos rfl, monthStart_leap hlow hhigh]
    omega

theorem IsDate.yearDay_lt (h : IsDate y m d) : monthStart (isLeap y) m + (d - 1) < yearLength y := by
  have hend : monthStart (isLeap y) (m + 1) ≤ monthStart (isLeap y) 13 :=
    monthStart_mono _ (by have := h.month_le; omega)
  rw [monthStart] at hend
  have := h.day_pos
  have := h.day_le
  rw [yearLength]
  omega

theorem IsDate.dayNumber_lt (h : IsDate y m d) : dayNumber y m d < yearStart (y + 1) := by
  have := h.yearDay_lt
  rw [dayNumber, yearStart_add_one]
  omega

theorem yearStart_le_dayNumber (y m d : ℕ) : yearStart y ≤ dayNumber y m d := by
  rw [dayNumber]
  omega

/-- A day lies in one year only. -/
theorem year_unique {n : ℕ} (hle : yearStart y ≤ n) (hlt : n < yearStart (y + 1))
    (hle' : yearStart y' ≤ n) (hlt' : n < yearStart (y' + 1)) : y = y' := by
  rcases Nat.lt_trichotomy y y' with h | h | h
  · have : yearStart (y + 1) ≤ yearStart y' := yearStart_mono h
    omega
  · exact h
  · have : yearStart (y' + 1) ≤ yearStart y := yearStart_mono h
    omega

/-- A day of a year lies in one month only. -/
theorem month_unique {leap : Bool} {n : ℕ} (hle : monthStart leap m ≤ n) (hlt : n < monthStart leap (m + 1))
    (hle' : monthStart leap m' ≤ n) (hlt' : n < monthStart leap (m' + 1)) : m = m' := by
  rcases Nat.lt_trichotomy m m' with h | h | h
  · have : monthStart leap (m + 1) ≤ monthStart leap m' := monthStart_mono leap h
    omega
  · exact h
  · have : monthStart leap (m' + 1) ≤ monthStart leap m := monthStart_mono leap h
    omega

theorem IsDate.unique (h : IsDate y m d) (h' : IsDate y' m' d')
    (heq : dayNumber y m d = dayNumber y' m' d') : y = y' ∧ m = m' ∧ d = d' := by
  have hyear : y = y' := year_unique (yearStart_le_dayNumber y m d) h.dayNumber_lt
    (heq ▸ yearStart_le_dayNumber y' m' d') (heq ▸ h'.dayNumber_lt)
  subst hyear
  rw [dayNumber, dayNumber] at heq
  have hpos := h.day_pos
  have hle := h.day_le
  have hpos' := h'.day_pos
  have hle' := h'.day_le
  have hlt : monthStart (isLeap y) m + (d - 1) < monthStart (isLeap y) (m + 1) := by
    rw [monthStart]
    omega
  have hlt' : monthStart (isLeap y) m + (d - 1) < monthStart (isLeap y) (m' + 1) := by
    rw [monthStart]
    omega
  have hmonth : m = m' := month_unique (by omega) hlt (by omega) hlt'
  subst hmonth
  exact ⟨rfl, rfl, by omega⟩

/-- Every day has a date. -/
theorem exists_date (n : ℕ) : ∃ y m d, IsDate y m d ∧ dayNumber y m d = n := by
  induction n with
  | zero =>
    refine ⟨0, 1, 1, by decide, ?_⟩
    rw [dayNumber, yearStart]
    rfl
  | succ n ih =>
    obtain ⟨y, m, d, h, hn⟩ := ih
    have hpos := h.day_pos
    have hle := h.day_le
    rw [dayNumber] at hn
    by_cases hday : d < monthLength (isLeap y) m
    · refine ⟨y, m, d + 1, ⟨h.month_pos, h.month_le, by omega, hday⟩, ?_⟩
      rw [dayNumber]
      omega
    · by_cases hmonth : m < 12
      · have hnext : 1 ≤ monthLength (isLeap y) (m + 1) := by
          have hm := h.month_pos
          cases isLeap y <;> interval_cases m <;> decide
        refine ⟨y, m + 1, 1, ⟨by omega, hmonth, le_rfl, hnext⟩, ?_⟩
        rw [dayNumber, monthStart]
        omega
      · have hlast : m = 12 := by have := h.month_le; omega
        subst hlast
        refine ⟨y + 1, 1, 1, ⟨le_rfl, by decide, le_rfl, ?_⟩, ?_⟩
        · cases isLeap (y + 1) <;> decide
        · have hend : monthStart (isLeap y) 13 = monthStart (isLeap y) 12 + monthLength (isLeap y) 12 := rfl
          have hzero : monthStart (isLeap (y + 1)) 1 = 0 := by cases isLeap (y + 1) <;> rfl
          rw [dayNumber, yearStart_add_one, yearLength, hzero, hend]
          omega

end Dates

example : weekday 1970 1 1 = 4 := by decide +kernel

end Library.Calendar
