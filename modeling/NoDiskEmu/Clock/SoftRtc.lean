import NoDiskEmu.Library.Calendar
import Mathlib.Data.UInt
import Mathlib.Tactic.IntervalCases

/-! The software clock of `softrtc.c`, which counts the seconds since 1970. `int` has 16 bits on the AVR
that the file is written for. -/

namespace NoDiskEmu.Clock

open Library.Calendar

/-- `struct tm`: months from 0, years from 1900, days of the week from 0 for Sunday. -/
@[ext] structure Tm where
  sec : UInt8
  min : UInt8
  hour : UInt8
  mday : UInt8
  mon : UInt8
  year : UInt8
  wday : UInt8
  deriving DecidableEq, Repr

/-- `month_days`. -/
def monthDays : List UInt32 := [31, 28, 31, 30, 31, 30, 31, 31, 30, 31, 30, 31]

/-- The macro `is_leap`. -/
def leapYear (year : UInt16) : Bool := year % 4 = 0 && (year % 100 ≠ 0 || year % 400 = 0)

/-- The macro `days_in_year`. -/
def daysInYear (year : UInt16) : UInt32 := if leapYear year then 366 else 365

def mktime (tm : Tm) : UInt32 :=
  let mon := tm.mon + 1
  let year := tm.year.toUInt16 + 1900
  -- The comparison takes the `uint8_t` that is left, so 1 for January becomes 255 and stays it.
  let mon := mon - 2
  let year := if mon = 0 then year - 1 else year
  let mon := if mon = 0 then mon + 12 else mon
  let days := year / 4 - year / 100 + year / 400 + (367 * mon.toUInt16.toInt16 / 12).toUInt16 +
    tm.mday.toUInt16
  (((days.toUInt32 + year.toUInt32 * 365 - 719499) * 24 + tm.hour.toUInt32) * 60 + tm.min.toUInt32) * 60 +
    tm.sec.toUInt32

/-- The loop of `gmtime` that takes off the years; a `uint32_t` has fewer days than the fuel. -/
def yearLoop : ℕ → UInt16 → UInt32 → UInt16 × UInt32
  | 0, i, tim => (i, tim)
  | fuel + 1, i, tim =>
    if daysInYear i ≤ tim then yearLoop fuel (i + 1) (tim - daysInYear i) else (i, tim)

/-- The loop of `gmtime` that takes off the months, with the rest of `month_days`. It has no result when
it reads behind the table. -/
def monthLoop (leap : Bool) : List UInt32 → UInt16 → UInt32 → Option (UInt16 × UInt32)
  | [], _, _ => none
  | days :: rest, i, tim =>
    if days ≤ tim then
      monthLoop leap rest (i + 1) (if i = 1 && leap then tim - days - 1 else tim - days)
    else some (i, tim)

def gmtime (t : UInt32) : Option Tm :=
  let minutes := t / 60
  let hours := minutes / 60
  let tim := hours / 24
  let (i, tim') := yearLoop 50000 1970 tim
  let year := (i - 1900).toUInt8
  -- This time `is_leap` gets the year from 1900 on.
  match monthLoop (leapYear year.toUInt16) monthDays 0 tim' with
  | none => none
  | some (mon, tim'') => some
    { sec := (t % 60).toUInt8
      min := (minutes % 60).toUInt8
      hour := (hours % 24).toUInt8
      mday := (tim'' + 1).toUInt8
      mon := mon.toUInt8
      year
      wday := ((tim + 4) % 7).toUInt8 }

/-! ### Dates -/

/-- The days from the first day of year 0 to the first one of 1970. -/
def epoch : ℕ := 719528

namespace Tm

/-- A date and time that the calendar has, with its day of the week. -/
structure Valid (tm : Tm) : Prop where
  date : IsDate (tm.year.toNat + 1900) (tm.mon.toNat + 1) tm.mday.toNat
  hour : tm.hour.toNat < 24
  min : tm.min.toNat < 60
  sec : tm.sec.toNat < 60
  wday : tm.wday.toNat = weekday (tm.year.toNat + 1900) (tm.mon.toNat + 1) tm.mday.toNat

/-- The days since the start of 1970. -/
def days (tm : Tm) : ℕ := dayNumber (tm.year.toNat + 1900) (tm.mon.toNat + 1) tm.mday.toNat - epoch

/-- The seconds since the start of 1970. -/
def seconds (tm : Tm) : ℕ := ((tm.days * 24 + tm.hour.toNat) * 60 + tm.min.toNat) * 60 + tm.sec.toNat

/-- From 1970 to 2105. -/
structure InSpan (tm : Tm) : Prop where
  first : 70 ≤ tm.year.toNat
  last : tm.year.toNat ≤ 205

/-- A date that the clock keeps: not in January, not a leap day, and not after February in 2000. -/
structure Regular (tm : Tm) : Prop where
  month : tm.mon ≠ 0
  leapDay : ¬(tm.mon = 1 ∧ tm.mday = 29)
  year2000 : ¬(tm.year = 100 ∧ 2 ≤ tm.mon)

end Tm

/-! ### The loops of `gmtime` -/

theorem leapYear_eq (year : UInt16) : leapYear year = isLeap year.toNat := by
  simp only [leapYear, isLeap, ← UInt16.toNat_inj, ne_eq]
  rfl

theorem toNat_daysInYear (year : UInt16) : (daysInYear year).toNat = yearLength year.toNat := by
  rw [daysInYear, leapYear_eq, yearLength_eq]
  split <;> rfl

/-- The year that the loop stops at is the one of the day, and the rest is the day in that year. -/
theorem yearLoop_spec (fuel : ℕ) {y n : ℕ} {i : UInt16} {tim : UInt32} (hn : yearStart i.toNat + tim.toNat = n)
    (hle : yearStart y ≤ n) (hlt : n < yearStart (y + 1)) (hi : i.toNat ≤ y) (hfuel : y - i.toNat < fuel)
    (hy : y < 65536) :
    yearLoop fuel i tim = (UInt16.ofNat y, UInt32.ofNat (n - yearStart y)) := by
  induction fuel generalizing i tim with
  | zero => omega
  | succ fuel ih =>
    have hdays := toNat_daysInYear i
    have hnext := yearStart_add_one i.toNat
    rw [yearLoop]
    rcases Nat.lt_or_eq_of_le hi with hmore | heq
    · have hmono : yearStart (i.toNat + 1) ≤ yearStart y := yearStart_mono hmore
      have hstep : daysInYear i ≤ tim := by
        rw [UInt32.le_iff_toNat_le]
        omega
      have hsucc : (i + 1).toNat = i.toNat + 1 := by
        rw [UInt16.toNat_add]
        exact Nat.mod_eq_of_lt (show i.toNat + 1 < 65536 by omega)
      have hsub : (tim - daysInYear i).toNat = tim.toNat - (daysInYear i).toNat :=
        UInt32.toNat_sub_of_le _ _ hstep
      rw [if_pos hstep]
      apply ih
      · rw [hsucc]
        omega
      · omega
      · omega
    · have hstop : ¬daysInYear i ≤ tim := by
        rw [UInt32.le_iff_toNat_le]
        subst heq
        omega
      subst heq
      rw [if_neg hstop, UInt16.ofNat_toNat, ← hn, Nat.add_sub_cancel_left, UInt32.ofNat_toNat]

/-- A month that the loop stops at has the day in it. -/
theorem monthLoop_some {leap : Bool} {table : List UInt32} {i j : UInt16} {tim r : UInt32}
    (h : monthLoop leap table i tim = some (j, r)) :
    ∃ k days, table[k]? = some days ∧ j = i + UInt16.ofNat k ∧ r < days := by
  induction table generalizing i tim with
  | nil => simp [monthLoop] at h
  | cons days rest ih =>
    rw [monthLoop] at h
    by_cases hmore : days ≤ tim
    · rw [if_pos hmore] at h
      obtain ⟨k, days', hmem, hj, hr⟩ := ih h
      refine ⟨k + 1, days', hmem, ?_, hr⟩
      rw [hj, UInt16.ofNat_add, UInt16.add_assoc, UInt16.add_comm 1]
      rfl
    · rw [if_neg hmore] at h
      obtain ⟨rfl, rfl⟩ := Prod.mk.inj (Option.some.inj h)
      exact ⟨0, days, rfl, (UInt16.add_zero _).symm, UInt32.not_le.mp hmore⟩

/-- With the table of the months, the loop finds the month and the day of every day of a year but the leap
day, and all those from March on when it takes a leap year for a common one. -/
theorem monthLoop_iff (flag leap : Bool) (hflag : flag = true → leap = true) :
    ∀ m < 12, ∀ d < monthLength leap (m + 1),
    (monthLoop flag monthDays 0 (UInt32.ofNat (monthStart leap (m + 1) + d)) =
        some (UInt16.ofNat m, UInt32.ofNat d) ↔
      ¬(m = 1 ∧ d = 28) ∧ (flag = leap ∨ m < 2)) := by
  cases flag with
  | false => cases leap <;> decide +kernel
  | true =>
    obtain rfl := hflag rfl
    decide +kernel

/-! ### The fields of `gmtime` -/

theorem yearStart_1970 : yearStart 1970 = epoch := by
  have hstart : yearStart 1970 + 1969 / 100 = 365 * 1970 + 1969 / 4 + 1969 / 400 + 1 := yearStart_succ 1969
  rw [epoch]
  omega

/-- The fields that `gmtime` fills from the seconds, for a time in year `y`. -/
structure Tm.Clocked (tm : Tm) (t y : ℕ) : Prop where
  year : tm.year.toNat + 1900 = y
  sec : tm.sec.toNat = t % 60
  min : tm.min.toNat = t / 60 % 60
  hour : tm.hour.toNat = t / 3600 % 24
  wday : tm.wday.toNat = (t / 86400 + 4) % 7

theorem monthDays_length : ∀ k < 12, ∀ days ∈ monthDays[k]?, days.toNat = monthLength false (k + 1) := by
  intro k hk
  interval_cases k <;> rintro _ ⟨⟩ <;> rfl

theorem monthLoop_monthDays {leap : Bool} {j : UInt16} {tim r : UInt32}
    (h : monthLoop leap monthDays 0 tim = some (j, r)) :
    j.toNat < 12 ∧ r.toNat < monthLength false (j.toNat + 1) := by
  obtain ⟨k, days, hmem, rfl, hr⟩ := monthLoop_some h
  have hk : k < 12 := (List.getElem?_eq_some_iff.mp hmem).1
  have hj : (0 + UInt16.ofNat k).toNat = k := by
    rw [UInt16.zero_add, UInt16.toNat_ofNat']
    omega
  rw [hj, ← monthDays_length k hk days hmem]
  exact ⟨hk, UInt32.lt_iff_toNat_lt.mp hr⟩

section

variable {t : UInt32} {y : ℕ} (hle : yearStart y ≤ epoch + t.toNat / 86400)
  (hlt : epoch + t.toNat / 86400 < yearStart (y + 1)) (hlow : 1970 ≤ y) (hhigh : y ≤ 2155)
include hle hlt hlow hhigh

theorem gmtime_iff (tm : Tm) : gmtime t = some tm ↔
    monthLoop (isLeap (y - 1900)) monthDays 0 (UInt32.ofNat (epoch + t.toNat / 86400 - yearStart y)) =
      some (tm.mon.toUInt16, tm.mday.toUInt32 - 1) ∧ tm.Clocked t.toNat y := by
  have hdays : yearStart (1970 : UInt16).toNat + (t / 60 / 60 / 24).toNat = epoch + t.toNat / 86400 := by
    have : yearStart (1970 : UInt16).toNat = epoch := yearStart_1970
    simp only [this, UInt32.toNat_div, UInt32.reduceToNat]
    omega
  have hbound := t.toNat_lt
  have hloop := yearLoop_spec 50000 hdays hle hlt hlow (by omega) (by omega)
  have hyear : (UInt16.ofNat y - 1900).toUInt8.toNat = y - 1900 := by
    rw [UInt16.toNat_toUInt8, UInt16.toNat_sub_of_le, UInt16.toNat_ofNat']
    · simp only [UInt16.reduceToNat]
      omega
    · rw [UInt16.le_iff_toNat_le, UInt16.toNat_ofNat']
      simp only [UInt16.reduceToNat]
      omega
  have hleap : leapYear (UInt16.ofNat y - 1900).toUInt8.toUInt16 = isLeap (y - 1900) := by
    rw [leapYear_eq, UInt8.toNat_toUInt16, hyear]
  simp only [gmtime, hloop, hleap]
  generalize (UInt16.ofNat y - 1900).toUInt8 = year at hyear
  constructor
  · intro h
    split at h
    · cases h
    · next mon tim hmonth =>
      obtain ⟨hmon, hlength⟩ := monthLoop_monthDays hmonth
      have hday := Nat.lt_of_lt_of_le hlength (monthLength_le _ _)
      obtain rfl := Option.some.inj h
      refine ⟨?_, ?_⟩
      · have hmon' : mon.toUInt8.toUInt16 = mon := by
          rw [← UInt16.toNat_inj, UInt8.toNat_toUInt16, UInt16.toNat_toUInt8]
          exact Nat.mod_eq_of_lt (by omega)
        have hday' : (tim + 1).toUInt8.toUInt32 - 1 = tim := by
          have hadd : (tim + 1).toUInt8.toUInt32 = tim + 1 := by
            rw [← UInt32.toNat_inj, UInt8.toNat_toUInt32, UInt32.toNat_toUInt8, UInt32.toNat_add]
            simp only [UInt32.reduceToNat]
            omega
          rw [hadd, UInt32.add_sub_cancel]
        rw [hmonth, hmon', hday']
      · exact ⟨by simp only; omega, by simp; omega, by simp; omega, by simp; omega, by simp; omega⟩
  · rintro ⟨hmonth, hclock⟩
    have hmon : tm.mon.toUInt16.toUInt8 = tm.mon := by simp
    have hday : (tm.mday.toUInt32 - 1 + 1).toUInt8 = tm.mday := by simp
    obtain ⟨hyear', hsec, hmin, hhour, hwday⟩ := hclock
    rw [hmonth]
    simp only [hmon, hday, Option.some.injEq]
    ext
    · simp [hsec]
      omega
    · simp [hmin]
      omega
    · simp [hhour]
      omega
    · rfl
    · rfl
    · simp only
      omega
    · simp [hwday]
      omega

end

/-! ### The seconds of `mktime` -/

theorem toNat_stamp {days year : UInt16} (h m s : UInt8) (hge : 719499 ≤ days.toNat + year.toNat * 365) :
    ((((days.toUInt32 + year.toUInt32 * 365 - 719499) * 24 + h.toUInt32) * 60 + m.toUInt32) * 60 +
      s.toUInt32).toNat =
    ((((days.toNat + year.toNat * 365 - 719499) * 24 + h.toNat) * 60 + m.toNat) * 60 + s.toNat) % 2 ^ 32 := by
  have hdays := days.toNat_lt
  have hyear := year.toNat_lt
  have hsum : (days.toUInt32 + year.toUInt32 * 365 - 719499).toNat =
      days.toNat + year.toNat * 365 - 719499 := by
    have hadd : (days.toUInt32 + year.toUInt32 * 365).toNat = days.toNat + year.toNat * 365 := by
      simp
      omega
    rw [UInt32.toNat_sub_of_le, hadd]
    · rfl
    · rw [UInt32.le_iff_toNat_le, hadd]
      exact hge
  simp only [UInt32.toNat_add, UInt32.toNat_mul, hsum, UInt8.toNat_toUInt32, UInt32.reduceToNat]
  omega

/-- The quotient of `mktime` for the months from March on. -/
theorem quotient_eq : ∀ k < 10, (367 * (UInt8.ofNat (k + 1)).toUInt16.toInt16 / 12).toUInt16.toNat + 29 =
    monthStart false (k + 3) := by
  decide

namespace Tm

/-- The days by which `mktime` is late: in January it neither counts the month as the eleventh nor takes
off a year, and its product overflows. -/
def delay (tm : Tm) : ℕ := if tm.mon = 0 then yearLength (tm.year.toNat + 1900) + 2001 else 0

/-- The seconds that `mktime` computes from the year and the quotient it has found. -/
theorem toNat_mktime_of {tm : Tm} {z q : UInt16}
    (hz : (if tm.mon + 1 - 2 = 0 then tm.year.toUInt16 + 1900 - 1 else tm.year.toUInt16 + 1900) = z)
    (hq : (367 * (if tm.mon + 1 - 2 = 0 then tm.mon + 1 - 2 + 12 else tm.mon + 1 - 2).toUInt16.toInt16 /
      12).toUInt16 = q)
    (hn : z.toNat / 4 - z.toNat / 100 + z.toNat / 400 + q.toNat + tm.mday.toNat + z.toNat * 365 =
      tm.days + tm.delay + 719499) (hyear : z.toNat ≤ 2155) (hquot : q.toNat ≤ 2337) :
    (mktime tm).toNat = (tm.seconds + 86400 * tm.delay) % 2 ^ 32 := by
  have hday := tm.mday.toNat_lt
  have hsum : (z / 4 - z / 100 + z / 400 + q + tm.mday.toUInt16).toNat =
      z.toNat / 4 - z.toNat / 100 + z.toNat / 400 + q.toNat + tm.mday.toNat := by
    have hle : z / 100 ≤ z / 4 := by
      rw [UInt16.le_iff_toNat_le]
      simp
      omega
    have hsub := UInt16.toNat_sub_of_le _ _ hle
    simp only [UInt16.toNat_add, hsub, UInt16.toNat_div, UInt8.toNat_toUInt16, UInt16.reduceToNat]
    omega
  simp only [mktime, hz, hq]
  have heq : ((((tm.days + tm.delay) * 24 + tm.hour.toNat) * 60 + tm.min.toNat) * 60 + tm.sec.toNat) =
      tm.seconds + 86400 * tm.delay := by
    rw [seconds]
    omega
  rw [toNat_stamp _ _ _ (by omega), hsum, hn, Nat.add_sub_cancel, heq]

theorem epoch_le {y : ℕ} (h : 1970 ≤ y) : epoch ≤ yearStart y := by
  rw [← yearStart_1970]
  exact yearStart_mono h

theorem toNat_year (tm : Tm) : (tm.year.toUInt16 + 1900).toNat = tm.year.toNat + 1900 := by
  have hlt := tm.year.toNat_lt
  rw [UInt16.toNat_add, UInt8.toNat_toUInt16]
  simp only [UInt16.reduceToNat]
  omega

section Months

variable {tm : Tm} {y : ℕ} (hdate : IsDate y (tm.mon.toNat + 1) tm.mday.toNat)
  (hy : tm.year.toNat + 1900 = y) (hlow : 1970 ≤ y)
include hdate hy hlow

theorem mktime_january (h0 : tm.mon = 0) : (mktime tm).toNat = (tm.seconds + 86400 * tm.delay) % 2 ^ 32 := by
  have hpos := hdate.day_pos
  have hlt := tm.year.toNat_lt
  have hstart := epoch_le hlow
  have hend := yearStart_succ y
  have hnext := yearStart_add_one y
  have hmonth : monthStart (isLeap y) ((0 : UInt8).toNat + 1) = 0 := by cases isLeap y <;> rfl
  have hfalse : ¬(0 : UInt8) + 1 - 2 = 0 := by decide
  have hquot : (367 * ((0 : UInt8) + 1 - 2).toUInt16.toInt16 / 12).toUInt16 = 2337 := by decide
  have hyear := toNat_year tm
  apply toNat_mktime_of (z := tm.year.toUInt16 + 1900) (q := 2337)
  · rw [h0, if_neg hfalse]
  · rw [h0, if_neg hfalse, hquot]
  · rw [hyear, delay, if_pos h0, days, dayNumber, h0, hy, hmonth]
    simp only [UInt16.reduceToNat]
    rw [epoch] at hstart ⊢
    omega
  · omega
  · decide

theorem mktime_february (h1 : tm.mon = 1) : (mktime tm).toNat = (tm.seconds + 86400 * tm.delay) % 2 ^ 32 := by
  have hpos := hdate.day_pos
  have hlt := tm.year.toNat_lt
  have hstart := epoch_le hlow
  obtain ⟨z, rfl⟩ : ∃ z, y = z + 1 := ⟨y - 1, by omega⟩
  have hend := yearStart_succ z
  have hmonth : monthStart (isLeap (z + 1)) ((1 : UInt8).toNat + 1) = 31 := by
    cases isLeap (z + 1) <;> rfl
  have htrue : (1 : UInt8) + 1 - 2 = 0 := by decide
  have hquot : (367 * ((1 : UInt8) + 1 - 2 + 12).toUInt16.toInt16 / 12).toUInt16 = 367 := by decide
  have hne : ¬(1 : UInt8) = 0 := by decide
  have hyear : (tm.year.toUInt16 + 1900 - 1).toNat = z := by
    have hle : 1 ≤ tm.year.toUInt16 + 1900 := by
      rw [UInt16.le_iff_toNat_le, toNat_year]
      simp only [UInt16.reduceToNat]
      omega
    rw [UInt16.toNat_sub_of_le _ _ hle, toNat_year]
    simp only [UInt16.reduceToNat]
    omega
  apply toNat_mktime_of (z := tm.year.toUInt16 + 1900 - 1) (q := 367)
  · rw [h1, if_pos htrue]
  · rw [h1, if_pos htrue, hquot]
  · rw [hyear, delay, h1, if_neg hne, days, dayNumber, h1, hy, hmonth]
    simp only [UInt16.reduceToNat]
    rw [epoch] at hstart ⊢
    omega
  · omega
  · decide

theorem mktime_march (h2 : 2 ≤ tm.mon.toNat) :
    (mktime tm).toNat = (tm.seconds + 86400 * tm.delay) % 2 ^ 32 := by
  have hpos := hdate.day_pos
  have hmonth := hdate.month_le
  have hlt := tm.year.toNat_lt
  have hstart := epoch_le hlow
  have hend := yearStart_succ y
  obtain ⟨k, hk, hmon⟩ : ∃ k < 10, tm.mon = UInt8.ofNat (k + 2) := by
    refine ⟨tm.mon.toNat - 2, by omega, ?_⟩
    rw [show tm.mon.toNat - 2 + 2 = tm.mon.toNat by omega, UInt8.ofNat_toNat]
  have hmk : tm.mon.toNat + 1 = k + 3 := by
    rw [hmon, UInt8.toNat_ofNat']
    omega
  have hsub : tm.mon + 1 - 2 = UInt8.ofNat (k + 1) := by
    rw [hmon]
    interval_cases k <;> decide
  have hne : ¬UInt8.ofNat (k + 1) = 0 := by interval_cases k <;> decide
  have hne' : ¬tm.mon = 0 := by
    intro h0
    rw [h0] at h2
    exact absurd h2 (by decide)
  have hquot := quotient_eq k hk
  have hstart' := yearStart_add_monthStart (y := y) (m := k + 3) (by omega) (by omega)
  have hmono : monthStart false (k + 3) ≤ 365 := monthStart_mono false (show k + 3 ≤ 13 by omega)
  have hyear := toNat_year tm
  apply toNat_mktime_of (z := tm.year.toUInt16 + 1900)
    (q := (367 * (UInt8.ofNat (k + 1)).toUInt16.toInt16 / 12).toUInt16)
  · rw [hsub, if_neg hne]
  · rw [hsub, if_neg hne]
  · rw [hyear, delay, if_neg hne', days, dayNumber, hmk, hy]
    rw [epoch] at hstart ⊢
    omega
  · omega
  · omega

end Months

theorem toNat_mktime {tm : Tm} (hdate : IsDate (tm.year.toNat + 1900) (tm.mon.toNat + 1) tm.mday.toNat)
    (hlow : 70 ≤ tm.year.toNat) : (mktime tm).toNat = (tm.seconds + 86400 * tm.delay) % 2 ^ 32 := by
  by_cases h0 : tm.mon = 0
  · exact mktime_january hdate rfl (by omega) h0
  by_cases h1 : tm.mon = 1
  · exact mktime_february hdate rfl (by omega) h1
  · apply mktime_march hdate rfl (by omega)
    rw [← UInt8.toNat_inj] at h0 h1
    simp only [UInt8.reduceToNat] at h0 h1
    omega

/-! ### Times and dates -/

variable {tm tm' : Tm}

theorem yearStart_2106 : yearStart 2106 = 769201 := by
  have hend : yearStart 2106 + 2105 / 100 = 365 * 2106 + 2105 / 4 + 2105 / 400 + 1 := yearStart_succ 2105
  omega

theorem yearStart_le_2107 (tm : Tm) (hhigh : tm.year.toNat ≤ 206) : yearStart (tm.year.toNat + 1900 + 1) ≤ 769566 := by
  have hend : yearStart 2107 + 2106 / 100 = 365 * 2107 + 2106 / 4 + 2106 / 400 + 1 := yearStart_succ 2106
  have hmono : yearStart (tm.year.toNat + 1900 + 1) ≤ yearStart 2107 := yearStart_mono (by omega)
  omega

theorem InSpan.stop (h : tm.InSpan) : yearStart (tm.year.toNat + 1900 + 1) ≤ 769201 := by
  have hlast := h.last
  rw [← yearStart_2106]
  exact yearStart_mono (by omega)

theorem days_add (hlow : 70 ≤ tm.year.toNat) :
    epoch + tm.days = dayNumber (tm.year.toNat + 1900) (tm.mon.toNat + 1) tm.mday.toNat := by
  have hstart : epoch ≤ yearStart (tm.year.toNat + 1900) := epoch_le (by omega)
  have hle := yearStart_le_dayNumber (tm.year.toNat + 1900) (tm.mon.toNat + 1) tm.mday.toNat
  rw [days]
  omega

/-- The fields of a valid time are those of its seconds. -/
theorem Valid.clocked (h : tm.Valid) (hlow : 70 ≤ tm.year.toNat) :
    tm.Clocked tm.seconds (tm.year.toNat + 1900) ∧ tm.seconds / 86400 = tm.days := by
  obtain ⟨-, hhour, hmin, hsec, hwday⟩ := h
  have hdays := days_add hlow
  have hquot : tm.seconds / 86400 = tm.days := by
    rw [seconds]
    omega
  refine ⟨⟨rfl, ?_, ?_, ?_, ?_⟩, hquot⟩
  · rw [seconds]
    omega
  · rw [seconds]
    omega
  · rw [seconds]
    omega
  · rw [hquot, hwday, weekday, ← hdays, epoch]
    omega

/-- Times with the same seconds are equal. -/
theorem Valid.eq_of_seconds (h : tm.Valid) (hspan : tm.InSpan) (h' : tm'.Valid) (hspan' : tm'.InSpan)
    (heq : tm.seconds = tm'.seconds) : tm = tm' := by
  obtain ⟨hclock, hdays⟩ := h.clocked hspan.first
  obtain ⟨hclock', hdays'⟩ := h'.clocked hspan'.first
  rw [heq] at hclock hdays
  have hnumber := days_add hspan.first
  have hnumber' := days_add hspan'.first
  rw [← hdays] at hnumber
  rw [← hdays'] at hnumber'
  obtain ⟨hyear, hmon, hmday⟩ := h.date.unique h'.date (hnumber.symm.trans hnumber')
  ext
  · exact hclock.sec.trans hclock'.sec.symm
  · exact hclock.min.trans hclock'.min.symm
  · exact hclock.hour.trans hclock'.hour.symm
  · exact hmday
  · omega
  · omega
  · exact hclock.wday.trans hclock'.wday.symm

/-- The dates that `gmtime` finds. -/
def Readable (tm : Tm) : Prop := ¬(tm.mon = 1 ∧ tm.mday = 29) ∧ ¬(tm.year = 100 ∧ 2 ≤ tm.mon)

theorem regular_iff : tm.Regular ↔ tm.mon ≠ 0 ∧ tm.Readable :=
  ⟨fun h => ⟨h.month, h.leapDay, h.year2000⟩, fun h => ⟨h.1, h.2.1, h.2.2⟩⟩

/-- The year from 1900 on tells the leap years, but for 2000. -/
theorem isLeap_offset : ∀ k < 137, (isLeap (k + 70) = isLeap (k + 1970) ↔ k ≠ 30) ∧
    (isLeap (k + 70) = true → isLeap (k + 1970) = true) := by
  decide

theorem gmtime_of_seconds (h : tm.Valid) (hlow : 70 ≤ tm.year.toNat) (hhigh : tm.year.toNat ≤ 206)
    {t : UInt32} (ht : t.toNat = tm.seconds) : gmtime t = some tm ↔ tm.Readable := by
  obtain ⟨hclock, hdays⟩ := h.clocked hlow
  have hnumber := days_add hlow
  have hpos := h.date.day_pos
  have hmonth := h.date.month_le
  have hday := h.date.day_le
  have hlt := h.date.dayNumber_lt
  have hle := yearStart_le_dayNumber (tm.year.toNat + 1900) (tm.mon.toNat + 1) tm.mday.toNat
  have hday31 := hday.trans (monthLength_le _ _)
  obtain ⟨k, hk, hyear⟩ : ∃ k < 137, tm.year.toNat = k + 70 := ⟨tm.year.toNat - 70, by omega, by omega⟩
  obtain ⟨hsame, himp⟩ := isLeap_offset k hk
  rw [gmtime_iff (y := tm.year.toNat + 1900) (by rw [ht, hdays]; omega) (by rw [ht, hdays]; omega) (by omega)
    (by omega) tm, ht, hdays, hnumber, and_iff_left hclock, dayNumber, Nat.add_assoc, Nat.add_sub_cancel_left,
    Nat.add_sub_cancel]
  have hoffset : tm.year.toNat + 1900 = k + 1970 := by omega
  rw [hoffset] at hday ⊢
  rw [hyear]
  have hmon' : tm.mon.toUInt16 = UInt16.ofNat tm.mon.toNat := by
    rw [← UInt16.toNat_inj]
    simp
  have hmday' : tm.mday.toUInt32 - 1 = UInt32.ofNat (tm.mday.toNat - 1) := by
    have hone : 1 ≤ tm.mday.toUInt32 := by
      rw [UInt32.le_iff_toNat_le]
      simpa using hpos
    rw [← UInt32.toNat_inj, UInt32.toNat_sub_of_le _ _ hone]
    simp
    omega
  rw [hmon', hmday', monthLoop_iff _ _ himp _ (by omega) _ (by omega), hsame, Readable,
    ← UInt8.toNat_inj, ← UInt8.toNat_inj, ← UInt8.toNat_inj, UInt8.le_iff_toNat_le, hyear]
  simp only [UInt8.reduceToNat]
  omega

/-- What `mktime` makes of a time in January lies in another year. -/
theorem january_year (hdate : IsDate (tm.year.toNat + 1900) (tm.mon.toNat + 1) tm.mday.toNat)
    (hlow : 70 ≤ tm.year.toNat) (hhigh : tm.year.toNat ≤ 206) (hmon : tm.mon = 0)
    (hhour : tm.hour.toNat < 24) (hmin : tm.min.toNat < 60) (hsec : tm.sec.toNat < 60) :
    ¬(yearStart (tm.year.toNat + 1900) ≤ epoch + (mktime tm).toNat / 86400 ∧
      epoch + (mktime tm).toNat / 86400 < yearStart (tm.year.toNat + 1900 + 1)) := by
  have hdays := days_add hlow
  have hlt := hdate.dayNumber_lt
  have hle := yearStart_le_dayNumber (tm.year.toNat + 1900) (tm.mon.toNat + 1) tm.mday.toNat
  have hstop := yearStart_le_2107 tm hhigh
  have hnext := yearStart_add_one (tm.year.toNat + 1900)
  have hlen : yearLength (tm.year.toNat + 1900) ≤ 366 := by
    rw [yearLength_eq]
    split <;> decide
  obtain ⟨total, htotal⟩ : ∃ total, total = tm.seconds + 86400 * tm.delay := ⟨_, rfl⟩
  rw [toNat_mktime hdate hlow, ← htotal, epoch]
  rw [seconds, delay, if_pos hmon] at htotal
  rw [epoch] at hdays
  -- more than six years late, unless the seconds start again from 0
  by_cases hwrap : total < 2 ^ 32
  · rw [Nat.mod_eq_of_lt hwrap]
    omega
  · have hmod : total % 2 ^ 32 = total - 2 ^ 32 := by omega
    rw [hmod]
    omega

end Tm

/-- Every time is one of a year. -/
theorem exists_year (t : UInt32) : ∃ y, yearStart y ≤ epoch + t.toNat / 86400 ∧
    epoch + t.toNat / 86400 < yearStart (y + 1) ∧ 1970 ≤ y ∧ y ≤ 2106 := by
  obtain ⟨y, m, d, hdate, hn⟩ := exists_date (epoch + t.toNat / 86400)
  have hle := yearStart_le_dayNumber y m d
  have hlt := hdate.dayNumber_lt
  have hbound := t.toNat_lt
  refine ⟨y, hn ▸ hle, hn ▸ hlt, ?_, ?_⟩
  · by_contra hless
    have : yearStart (y + 1) ≤ yearStart 1970 := yearStart_mono (by omega)
    rw [yearStart_1970] at this
    omega
  · by_contra hmore
    have : yearStart 2107 ≤ yearStart y := yearStart_mono (by omega)
    have : yearStart 2107 + 2106 / 100 = 365 * 2107 + 2106 / 4 + 2106 / 400 + 1 := yearStart_succ 2106
    rw [epoch] at hn
    omega

/-- The seconds from 1970 to the end of 2105. -/
def spanEnd : ℕ := 86400 * (yearStart 2106 - epoch)

/-- `gmtime` makes a date of the time, and `mktime` the same time of that. -/
def Kept (t : UInt32) : Prop :=
  ∃ tm : Tm, gmtime t = some tm ∧ IsDate (tm.year.toNat + 1900) (tm.mon.toNat + 1) tm.mday.toNat ∧
    mktime tm = t

/-- The software clock keeps the dates that it is set to, and the times that it counts. -/
def RoundTrip : Prop :=
  (∀ tm : Tm, tm.Valid → tm.InSpan → gmtime (mktime tm) = some tm) ∧
    ∀ t : UInt32, t.toNat < spanEnd → Kept t

namespace Tm

variable {tm : Tm}

theorem InSpan.seconds_lt (h : tm.InSpan)
    (hdate : IsDate (tm.year.toNat + 1900) (tm.mon.toNat + 1) tm.mday.toNat) (hhour : tm.hour.toNat < 24)
    (hmin : tm.min.toNat < 60) (hsec : tm.sec.toNat < 60) : tm.seconds < 2 ^ 32 := by
  have hdays := days_add h.first
  have hstop := h.stop
  have hlt := hdate.dayNumber_lt
  rw [epoch] at hdays
  rw [seconds]
  omega

theorem mktime_of_seconds (hvalid : tm.Valid) (hspan : tm.InSpan) (hmon : tm.mon ≠ 0) :
    (mktime tm).toNat = tm.seconds := by
  rw [toNat_mktime hvalid.date hspan.first, delay, if_neg hmon]
  exact Nat.mod_eq_of_lt (hspan.seconds_lt hvalid.date hvalid.hour hvalid.min hvalid.sec)

/-- The times of the span are those of its dates. -/
theorem exists_seconds {t : UInt32} (ht : t.toNat < spanEnd) :
    ∃ tm : Tm, tm.Valid ∧ tm.InSpan ∧ tm.seconds = t.toNat := by
  obtain ⟨y, m, d, hdate, hn⟩ := exists_date (epoch + t.toNat / 86400)
  obtain ⟨y', hle', hlt', hlow, -⟩ := exists_year t
  have hle := yearStart_le_dayNumber y m d
  have hlt := hdate.dayNumber_lt
  obtain rfl : y = y' := year_unique (hn ▸ hle) (hn ▸ hlt) hle' hlt'
  have hpos := hdate.month_pos
  have hmonth := hdate.month_le
  have hday := hdate.day_le.trans (monthLength_le _ _)
  have hend := yearStart_2106
  have hhigh : y ≤ 2105 := by
    by_contra hmore
    have : yearStart 2106 ≤ yearStart y := yearStart_mono (by omega)
    rw [spanEnd, epoch] at ht
    rw [epoch] at hn
    omega
  have hyear : (UInt8.ofNat (y - 1900)).toNat + 1900 = y := by
    simp
    omega
  have hmon : (UInt8.ofNat (m - 1)).toNat + 1 = m := by
    simp
    omega
  have hmday : (UInt8.ofNat d).toNat = d := by
    simp
    omega
  have hspan : (Tm.mk (UInt8.ofNat (t.toNat % 60)) (UInt8.ofNat (t.toNat / 60 % 60))
      (UInt8.ofNat (t.toNat / 3600 % 24)) (UInt8.ofNat d) (UInt8.ofNat (m - 1)) (UInt8.ofNat (y - 1900))
      (UInt8.ofNat (weekday y m d))).InSpan := ⟨by simp only; omega, by simp only; omega⟩
  refine ⟨_, ⟨?_, ?_, ?_, ?_, ?_⟩, hspan, ?_⟩
  · simp only [hyear, hmon, hmday]
    exact hdate
  · simp
    omega
  · simp
    omega
  · simp
    omega
  · have hweek : weekday y m d < 7 := Nat.mod_lt _ (by decide)
    simp only [hyear, hmon, hmday]
    simp
    omega
  · have hdays := days_add hspan.first
    simp only [hyear, hmon, hmday, hn] at hdays
    rw [seconds, ← Nat.add_left_cancel hdays.symm]
    simp
    omega

theorem kept_of_regular (hvalid : tm.Valid) (hspan : tm.InSpan) (h : tm.Regular) {t : UInt32}
    (ht : t.toNat = tm.seconds) : Kept t := by
  obtain ⟨hmon, hread⟩ := regular_iff.mp h
  refine ⟨tm, (gmtime_of_seconds hvalid hspan.first (hspan.last.trans (by decide)) ht).mpr hread, hvalid.date, ?_⟩
  rw [← UInt32.toNat_inj, mktime_of_seconds hvalid hspan hmon, ht]

theorem regular_of_kept (hvalid : tm.Valid) (hspan : tm.InSpan) {t : UInt32} (ht : t.toNat = tm.seconds)
    (h : Kept t) : tm.Regular := by
  obtain ⟨tm', hgmtime, hdate, hmktime⟩ := h
  obtain ⟨hclock, hdays⟩ := hvalid.clocked hspan.first
  have hnumber := days_add hspan.first
  have hfirst := hspan.first
  have hlast := hspan.last
  have hle := yearStart_le_dayNumber (tm.year.toNat + 1900) (tm.mon.toNat + 1) tm.mday.toNat
  have hlt := hvalid.date.dayNumber_lt
  rw [← hnumber, ← hdays, ← ht] at hle hlt
  obtain ⟨-, hyear, hsec, hmin, hhour, hwday⟩ := (gmtime_iff hle hlt (by omega) (by omega) tm').mp hgmtime
  have hspan' : tm'.InSpan := ⟨by omega, by omega⟩
  have hmon : tm'.mon ≠ 0 := by
    intro hzero
    apply january_year hdate hspan'.first (by omega) hzero (by omega) (by omega) (by omega)
    rw [hmktime, hyear]
    exact ⟨hle, hlt⟩
  have hsame := toNat_mktime hdate hspan'.first
  rw [hmktime, delay, if_neg hmon, Nat.mul_zero, Nat.add_zero, Nat.mod_eq_of_lt
    (hspan'.seconds_lt hdate (by omega) (by omega) (by omega))] at hsame
  have hvalid' : tm'.Valid := by
    refine ⟨hdate, by omega, by omega, by omega, ?_⟩
    have hdays' := days_add hspan'.first
    have hquot : t.toNat / 86400 = tm'.days := by
      rw [hsame, seconds]
      omega
    rw [hwday, weekday, ← hdays', hquot, epoch]
    omega
  obtain rfl : tm = tm' := hvalid.eq_of_seconds hspan hvalid' hspan' (ht.symm.trans hsame)
  exact regular_iff.mpr ⟨hmon, (gmtime_of_seconds hvalid hspan.first (hspan.last.trans (by decide)) ht).mp hgmtime⟩

theorem gmtime_mktime_iff (hvalid : tm.Valid) (hspan : tm.InSpan) :
    gmtime (mktime tm) = some tm ↔ tm.Regular := by
  rw [regular_iff]
  by_cases hmon : tm.mon = 0
  · refine ⟨fun h => ?_, fun h => absurd hmon h.1⟩
    obtain ⟨y, hle, hlt, hlow, hhigh⟩ := exists_year (mktime tm)
    obtain ⟨-, hyear, -⟩ := (gmtime_iff hle hlt hlow (by omega) tm).mp h
    subst hyear
    exact absurd ⟨hle, hlt⟩ (january_year hvalid.date hspan.first
      (hspan.last.trans (by decide)) hmon hvalid.hour hvalid.min hvalid.sec)
  · rw [gmtime_of_seconds hvalid hspan.first (hspan.last.trans (by decide))
      (mktime_of_seconds hvalid hspan hmon), and_iff_right hmon]

/-- The times that the clock gives back, whatever it was set to: valid ones that it keeps, before its
seconds start again from 0 in February 2106. -/
theorem gmtime_mktime_iff_valid (hlow : 70 ≤ tm.year.toNat) :
    gmtime (mktime tm) = some tm ↔ tm.Valid ∧ tm.Regular ∧ tm.seconds < 2 ^ 32 := by
  have hadd := days_add hlow
  have hstart := yearStart_le_dayNumber (tm.year.toNat + 1900) (tm.mon.toNat + 1) tm.mday.toNat
  constructor
  · intro h
    obtain ⟨y, hle, hlt, hy, hhigh⟩ := exists_year (mktime tm)
    obtain ⟨hmonth, hyear, hsec, hmin, hhour, hwday⟩ := (gmtime_iff hle hlt hy (by omega) tm).mp h
    subst hyear
    obtain ⟨hmon, hlength⟩ := monthLoop_monthDays hmonth
    rw [UInt8.toNat_toUInt16] at hmon hlength
    have hlength31 := monthLength_le false (tm.mon.toNat + 1)
    have hpos : 1 ≤ tm.mday.toUInt32 := by
      by_contra hzero
      have hmday : tm.mday.toUInt32 = 0 := UInt32.lt_one_iff.mp (UInt32.not_le.mp hzero)
      rw [hmday] at hlength
      exact absurd (Nat.lt_of_lt_of_le hlength hlength31) (by decide)
    have hmday := UInt32.le_iff_toNat_le.mp hpos
    rw [UInt32.toNat_sub_of_le _ _ hpos] at hlength
    simp only [UInt8.toNat_toUInt32, UInt32.reduceToNat] at hmday hlength
    have hdate : IsDate (tm.year.toNat + 1900) (tm.mon.toNat + 1) tm.mday.toNat :=
      ⟨by omega, by omega, hmday, Nat.le_trans (by omega) (monthLength_false_le _ (tm.mon.toNat + 1))⟩
    have hnumber := hdate.dayNumber_lt
    have hnext := yearStart_add_one (tm.year.toNat + 1900)
    have hyearLength : yearLength (tm.year.toNat + 1900) ≤ 366 := by
      rw [yearLength_eq]
      split <;> decide
    have hmon0 : tm.mon ≠ 0 := by
      intro hzero
      exact january_year hdate hlow (by omega) hzero (by omega) (by omega) (by omega) ⟨hle, hlt⟩
    have hmktime := toNat_mktime hdate hlow
    rw [delay, if_neg hmon0, Nat.mul_zero, Nat.add_zero] at hmktime
    have hstop := yearStart_le_2107 tm (by omega)
    have hquot : tm.seconds / 86400 = tm.days := by
      rw [seconds]
      omega
    have hseconds : tm.seconds < 2 ^ 32 := by
      by_contra hmore
      rw [epoch] at hle hadd
      omega
    rw [Nat.mod_eq_of_lt hseconds] at hmktime
    have hvalid : tm.Valid := by
      refine ⟨hdate, by omega, by omega, by omega, ?_⟩
      rw [hwday, hmktime, hquot, weekday, ← hadd, epoch]
      omega
    exact ⟨hvalid, regular_iff.mpr ⟨hmon0, (gmtime_of_seconds hvalid hlow (by omega) hmktime).mp h⟩, hseconds⟩
  · rintro ⟨hvalid, hregular, hseconds⟩
    obtain ⟨hmon, hread⟩ := regular_iff.mp hregular
    have hhigh : tm.year.toNat ≤ 206 := by
      by_contra hmore
      have hend : yearStart 2107 + 2106 / 100 = 365 * 2107 + 2106 / 4 + 2106 / 400 + 1 := yearStart_succ 2106
      have hmono : yearStart 2107 ≤ yearStart (tm.year.toNat + 1900) := yearStart_mono (by omega)
      rw [seconds] at hseconds
      rw [epoch] at hadd
      omega
    have hmktime := toNat_mktime hvalid.date hlow
    rw [delay, if_neg hmon, Nat.mul_zero, Nat.add_zero, Nat.mod_eq_of_lt hseconds] at hmktime
    exact (gmtime_of_seconds hvalid hlow hhigh hmktime).mpr hread

end Tm

/-- The dates and times that survive the way through the clock and back, from either side. -/
theorem clock_iff {tm : Tm} {t : UInt32} (hvalid : tm.Valid) (hspan : tm.InSpan) (ht : t.toNat < spanEnd) :
    (gmtime (mktime tm) = some tm ↔ tm.Regular) ∧
      ∃ tm : Tm, tm.Valid ∧ tm.InSpan ∧ tm.seconds = t.toNat ∧ (Kept t ↔ tm.Regular) := by
  refine ⟨tm.gmtime_mktime_iff hvalid hspan, ?_⟩
  obtain ⟨tm, hvalid, hspan, hseconds⟩ := Tm.exists_seconds ht
  exact ⟨tm, hvalid, hspan, hseconds, Tm.regular_of_kept hvalid hspan hseconds.symm,
    fun h => Tm.kept_of_regular hvalid hspan h hseconds.symm⟩

/-- A Saturday in August 2008. -/
def august2008 : Tm := ⟨45, 18, 3, 2, 7, 108, 6⟩

theorem august2008_valid : august2008.Valid :=
  ⟨by decide, by decide, by decide, by decide, by decide +kernel⟩

theorem clock_august2008 : (gmtime (mktime august2008) = some august2008 ↔ august2008.Regular) ∧
    ∃ tm : Tm, tm.Valid ∧ tm.InSpan ∧ tm.seconds = (1217647125 : UInt32).toNat ∧
      (Kept 1217647125 ↔ tm.Regular) :=
  clock_iff august2008_valid ⟨by decide, by decide⟩ (by decide +kernel)

/-- New Year's Day of 2008, which comes back as a day in June 2014. -/
theorem not_roundTrip : ¬RoundTrip := by
  intro h
  have hback := h.1 ⟨0, 0, 0, 1, 0, 108, 2⟩
    ⟨by decide, by decide, by decide, by decide, by decide +kernel⟩ ⟨by decide, by decide⟩
  revert hback
  decide +kernel

end NoDiskEmu.Clock
