import NoDiskEmu.Dos.Line

/-! The dates of `parser.c`: `parse_date`, and the filter of `next_match` that works with them. -/

namespace NoDiskEmu.Dos

open Library

/-- `date_t`. -/
structure Timestamp extends Date where
  second : UInt8

/-- The bytes of a `date_t` in memory. -/
def Timestamp.bytes (d : Timestamp) : List UInt8 := [d.year, d.month, d.day, d.hour, d.minute, d.second]

/-- The end of `parse_date`, from the letter of a clock of twelve on. -/
def parseMeridiem (d : Timestamp) (s : List UInt8) : Option (Timestamp × List UInt8) :=
  if peek s ≠ 65 ∧ peek s ≠ 80 then none
  else
    let hour := if peek s = 80 then d.hour + 12 else d.hour
    if hour > 23 then none
    else if peek s.tail ≠ 77 then none
    else some ({ d with hour }, s.tail.tail)

/-- `parse_date` behind the minute. -/
def parseSecond (d : Timestamp) (s : List UInt8) : Option (Timestamp × List UInt8) :=
  let ch := peek s
  if ch = 58 ∨ ch = 46 then
    let r := parseNumber s.tail
    let second : UInt8 := .ofNat r.1
    if second > 59 ∨ peek r.2 ≠ 32 then none else parseMeridiem { d with second } r.2.tail
  else if ch = 32 then parseMeridiem d s.tail
  else if ch = 44 ∨ ch = 0 then some (d, s)
  else none

/-- `parse_date` behind the year. -/
def parseTime (year month day : UInt8) (s : List UInt8) : Option (Timestamp × List UInt8) :=
  if peek s = 0 ∨ peek s = 44 then some (⟨⟨year, month, day, 0, 0⟩, 0⟩, s)
  else if peek s ≠ 32 then none
  else
    let r := parseNumber s.tail
    let hour : UInt8 := .ofNat r.1
    if hour > 23 ∨ (peek r.2 ≠ 58 ∧ peek r.2 ≠ 46) then none
    else
      let r := parseNumber r.2.tail
      let minute : UInt8 := .ofNat r.1
      if minute > 59 then none else parseSecond ⟨⟨year, month, day, hour, minute⟩, 0⟩ r.2

/-- `parse_date`: the date and the rest of the string, or none if it returns 1. -/
def parseDate (s : List UInt8) : Option (Timestamp × List UInt8) :=
  let r := parseNumber s
  let month : UInt8 := .ofNat r.1
  if month > 12 ∨ peek r.2 ≠ 47 then none
  else
    let r := parseNumber r.2.tail
    let day : UInt8 := .ofNat r.1
    if day > 31 ∨ peek r.2 ≠ 47 then none
    else
      let r := parseNumber r.2.tail
      let year : UInt8 := .ofNat r.1
      parseTime (if year < 80 then year + 100 else year) month day r.2

/-- `memcmp`, below, equal to or above 0. -/
def memcmp : List UInt8 → List UInt8 → Ordering
  | x :: xs, y :: ys => if x < y then .lt else if y < x then .gt else memcmp xs ys
  | _, _ => .eq

/-- The dates that `next_match` lets through, with the filters that are set. -/
def dateMatches (start finish : Option Timestamp) (d : Timestamp) : Bool :=
  (start.all fun s => memcmp d.bytes s.bytes ≠ .lt) && finish.all fun e => memcmp d.bytes e.bytes ≠ .gt

/-- A date that the file systems report, without seconds. -/
structure Timestamp.Listed (d : Timestamp) : Prop where
  year : 80 ≤ d.year ∧ d.year ≤ 179
  month : 1 ≤ d.month ∧ d.month ≤ 12
  day : 1 ≤ d.day ∧ d.day ≤ 31
  hour : d.hour ≤ 23
  minute : d.minute ≤ 59
  second : d.second = 0

/-- The text of the date in a line of the long format. -/
def listedDate (dent : Dirent) (data : ℕ → UInt8) : List UInt8 :=
  (List.range 19).map fun i => data (nameStart dent + 24 + i)

theorem memcmp_self (xs : List UInt8) : memcmp xs xs = .eq := by
  induction xs with
  | nil => rfl
  | cons x xs ih => rw [memcmp, if_neg (UInt8.lt_irrefl x), if_neg (UInt8.lt_irrefl x), ih]

/-- The filter from a date to itself lets it through. -/
theorem dateMatches_self (d : Timestamp) : dateMatches (some d) (some d) d = true := by
  rw [dateMatches, Option.all_some, Option.all_some, memcmp_self]
  rfl

theorem fillOnes_of_lt {p : Pen} (fuel : ℕ) {j : ℕ} (hj : j < p.pos) :
    (Pen.fillOnes fuel p).data j = p.data j := by
  induction fuel generalizing p with
  | zero => rfl
  | succ fuel ih =>
    rw [Pen.fillOnes]
    split
    · rfl
    · exact (ih (Nat.lt_succ_of_lt hj)).trans (Function.update_of_ne (Nat.ne_of_lt hj) ..)

theorem Timestamp.Listed.twoDigits {d : Timestamp} (h : d.Listed) : d.toDate.TwoDigits :=
  ⟨UInt8.lt_of_le_of_lt h.month.2 (show (12 : UInt8) < 100 by decide),
    UInt8.lt_of_le_of_lt h.day.2 (show (31 : UInt8) < 100 by decide),
    UInt8.lt_of_le_of_lt h.hour (show (23 : UInt8) < 100 by decide),
    UInt8.lt_of_le_of_lt h.minute (show (59 : UInt8) < 100 by decide)⟩

/-- A line of the long format shows the date of its entry. -/
theorem listedDate_eq {iec : Bool} {dent : Dirent} {c : Cursor} (htype : dent.typeflags &&& 15 < 12)
    (hd : dent.date.TwoDigits) :
    listedDate dent (createentry iec dent .cmdLong c).data = dent.date.longText := by
  have hbody := lineBody_beforeDate .cmdLong c.data htype
  have hstart := nameStart_bounds dent
  have hpos := hbody.pos
  have hblank := hbody.blank
  have hlast : DirFormat.cmdLong.lastused = 63 := rfl
  rw [createentry_eq]
  generalize lineBody dent .cmdLong c.data = p at hpos hblank
  have heq : p.longDate dent.date = _ := Pen.longDate_eq 63 hd
    (fun j hj hlt => hblank j (by omega) hlt) (by omega)
  have hlength := dent.date.length_longText
  have hskip : (p.skip 7).pos = nameStart dent + 24 := congrArg (· + 7) hpos
  have hend := Pen.pos_puts (p.skip 7) dent.date.longText
  rw [Pen.lineDate, heq]
  apply List.ext_getElem
  · rw [listedDate, List.length_map, List.length_range, hlength]
  intro i hi hi'
  simp only [listedDate, List.getElem_map, List.getElem_range]
  rw [fillOnes_of_lt 256 (by omega), Pen.data_puts, ← hskip, Memory.write_inside hi',
    List.getD_eq_getElem _ _ hi']

section Reading

variable {d : Timestamp} {s : List UInt8}

theorem parseNumber_space : parseNumber (32 :: s) = parseNumber s := by
  rw [parseNumber, parseNumber, List.dropWhile_cons_of_pos (by decide)]

/-- The two digits of a year stand for one from 1980 to 2079. -/
theorem year_of_two {year : UInt8} (h : 80 ≤ year ∧ year ≤ 179) :
    (if year % 100 < 80 then year % 100 + 100 else year % 100) = year := by
  have hlow : 80 ≤ year.toNat := h.1
  have hhigh : year.toNat ≤ 179 := h.2
  have hmod : (year % 100).toNat = year.toNat % 100 := UInt8.toNat_mod year 100
  have hiff : year % 100 < 80 ↔ (year % 100).toNat < 80 := Iff.rfl
  apply UInt8.toNat_inj.mp
  split
  · next hlt =>
    rw [hiff] at hlt
    rw [UInt8.toNat_add, hmod]
    simp only [UInt8.reduceToNat]
    omega
  · next hge =>
    rw [hiff] at hge
    omega

/-- The hour on a clock of twelve with its letter is the hour again, but for noon. -/
theorem hour_of_letter {d : Date} (hhour : d.hour ≤ 23) :
    (if d.letter = 80 then d.hour12 + 12 else d.hour12) = if d.hour = 12 then 24 else d.hour := by
  have hle : d.hour.toNat ≤ 23 := hhour
  have heleven : d.hour > 11 ↔ 11 < d.hour.toNat := Iff.rfl
  have htwelve : d.hour > 12 ↔ 12 < d.hour.toNat := Iff.rfl
  have hnoon : d.hour = 12 ↔ d.hour.toNat = 12 := UInt8.toNat_inj.symm
  rw [Date.letter, Date.hour12]
  by_cases hpm : d.hour > 11
  · rw [if_pos hpm, if_pos rfl]
    by_cases hlate : d.hour > 12
    · rw [if_pos hlate, if_neg (by rw [hnoon]; rw [htwelve] at hlate; omega), UInt8.sub_add_cancel]
    · have heq : d.hour = 12 := by
        rw [hnoon]
        rw [heleven] at hpm
        rw [htwelve] at hlate
        omega
      rw [if_neg hlate, if_pos heq, heq]
      decide
  · rw [if_neg hpm, if_neg (by decide), if_neg (by rw [htwelve]; rw [heleven] at hpm; omega),
      if_neg (by rw [hnoon]; rw [heleven] at hpm; omega)]

theorem parseMeridiem_letter (hhour : d.hour ≤ 23) :
    parseMeridiem { d with hour := d.hour12 } (d.letter :: 77 :: s) =
      if d.hour = 12 then none else some (d, s) := by
  have hletter : ¬(peek (d.letter :: 77 :: s) ≠ 65 ∧ peek (d.letter :: 77 :: s) ≠ 80) := by
    show ¬(d.letter ≠ 65 ∧ d.letter ≠ 80)
    rw [Date.letter]
    split <;> decide
  have hback : (if peek (d.letter :: 77 :: s) = 80 then d.hour12 + 12 else d.hour12) =
      if d.hour = 12 then 24 else d.hour := hour_of_letter hhour
  rw [parseMeridiem, if_neg hletter]
  dsimp only
  rw [hback]
  by_cases hnoon : d.hour = 12
  · rw [if_pos hnoon, if_pos (by decide), if_pos hnoon]
  · rw [if_neg hnoon, if_neg (UInt8.not_lt.mpr hhour), if_neg hnoon]
    rfl

theorem parseDate_digits {month day year : UInt8} (hmonth : month ≤ 12) (hday : day ≤ 31)
    (hyear : year < 100) (hs : isdigit (peek s) = false) :
    parseDate (twoDigits month ++ 47 :: (twoDigits day ++ 47 :: (twoDigits year ++ s))) =
      parseTime (if year < 80 then year + 100 else year) month day s := by
  have hmonth' : month < 100 := UInt8.lt_of_le_of_lt hmonth (show (12 : UInt8) < 100 by decide)
  have hday' : day < 100 := UInt8.lt_of_le_of_lt hday (show (31 : UInt8) < 100 by decide)
  have hslash : ∀ {x y : UInt8} (xs : List UInt8), x ≤ y → ¬(x > y ∨ peek (47 :: xs) ≠ 47) :=
    fun xs hle h => h.elim (UInt8.not_lt.mpr hle) fun hne => hne rfl
  rw [parseDate, parseNumber_two hmonth' rfl]
  dsimp only [List.tail_cons]
  rw [UInt8.ofNat_toNat, if_neg (hslash _ hmonth), parseNumber_two hday' rfl]
  dsimp only [List.tail_cons]
  rw [UInt8.ofNat_toNat, if_neg (hslash _ hday)]
  simp only [parseNumber_two hyear hs, UInt8.ofNat_toNat]

theorem parseTime_digits {year month day hour minute : UInt8} (hhour : hour ≤ 23) (hminute : minute ≤ 59)
    (hs : isdigit (peek s) = false) :
    parseTime year month day (32 :: 32 :: 32 :: (twoDigits hour ++ 46 :: (twoDigits minute ++ s))) =
      parseSecond ⟨⟨year, month, day, hour, minute⟩, 0⟩ s := by
  have hhour' : hour < 100 := UInt8.lt_of_le_of_lt hhour (show (23 : UInt8) < 100 by decide)
  have hminute' : minute < 100 := UInt8.lt_of_le_of_lt hminute (show (59 : UInt8) < 100 by decide)
  have hpoint : ∀ xs : List UInt8, ¬(hour > 23 ∨ (peek (46 :: xs) ≠ 58 ∧ peek (46 :: xs) ≠ 46)) :=
    fun xs h => h.elim (UInt8.not_lt.mpr hhour) fun hne => hne.2 rfl
  have hspace : ∀ xs : List UInt8, ¬(peek (32 :: xs) = 0 ∨ peek (32 :: xs) = 44) :=
    fun xs h => h.elim (fun h => absurd (show (32 : UInt8) = 0 from h) (by decide))
      fun h => absurd (show (32 : UInt8) = 44 from h) (by decide)
  rw [parseTime, if_neg (hspace _), if_neg (fun h => h rfl), List.tail_cons, parseNumber_space,
    parseNumber_space, parseNumber_two hhour' rfl]
  dsimp only [List.tail_cons]
  rw [UInt8.ofNat_toNat, if_neg (hpoint _)]
  simp only [parseNumber_two hminute' hs, UInt8.ofNat_toNat, if_neg (UInt8.not_lt.mpr hminute)]

theorem Date.hour12_le {d : Date} (h : d.hour ≤ 23) : d.hour12 ≤ 23 := by
  rw [Date.hour12]
  split
  · next hgt =>
    have hsub : (d.hour - 12).toNat = d.hour.toNat - 12 :=
      UInt8.toNat_sub_of_le _ _ (UInt8.le_of_lt hgt)
    have hle : d.hour.toNat ≤ 23 := h
    show (d.hour - 12).toNat ≤ 23
    omega
  · exact h

/-- A printed date is read back, but for the hour after noon. -/
theorem parseDate_longText (hd : d.Listed) :
    parseDate (d.longText ++ s) = if d.hour = 12 then none else some (d, s) := by
  have hyear : d.year % 100 < 100 := UInt8.mod_lt _ (by decide)
  have hletter : peek (32 :: d.letter :: 77 :: s) = 32 := rfl
  simp only [Date.longText, List.append_assoc, List.cons_append, List.nil_append]
  rw [parseDate_digits hd.month.2 hd.day.2 hyear rfl, year_of_two hd.year,
    parseTime_digits (Date.hour12_le hd.hour) hd.minute rfl, parseSecond]
  dsimp only
  rw [hletter, if_neg (by decide), if_pos rfl, List.tail_cons, ← parseMeridiem_letter hd.hour, ← hd.second]

end Reading

/-- The date in a line of the long format is read as the date of the entry, and the filters from it and
up to it select the entry, unless the hour is the one after noon. -/
theorem parseDate_listedDate_iff (iec : Bool) {dent : Dirent} (c : Cursor) (s : List UInt8)
    {d : Timestamp} (htype : dent.typeflags &&& 15 < 12) (hdate : d.toDate = dent.date) (hd : d.Listed) :
    (∃ e, parseDate (listedDate dent (createentry iec dent .cmdLong c).data ++ s) = some (e, s) ∧ e = d ∧
      dateMatches (some e) none d = true ∧ dateMatches none (some e) d = true ∧
        dateMatches (some e) (some e) d = true) ↔ d.hour ≠ 12 := by
  rw [listedDate_eq htype (hdate ▸ hd.twoDigits), ← hdate, parseDate_longText hd]
  constructor
  · rintro ⟨e, hparse, -⟩ hnoon
    rw [if_pos hnoon] at hparse
    cases hparse
  · intro hnoon
    rw [if_neg hnoon]
    have hboth := dateMatches_self d
    obtain ⟨hstart, hfinish⟩ := Bool.and_eq_true_iff.mp hboth
    refine ⟨d, rfl, rfl, ?_, hfinish, hboth⟩
    rw [dateMatches, hstart]
    rfl

/-- The last minute of 2079. -/
theorem parseDate_listedDate_last :
    ∃ e, parseDate (listedDate ⟨fun _ => 65, 130, 1, 255, ⟨179, 12, 31, 23, 59⟩, false, []⟩
      (createentry true ⟨fun _ => 65, 130, 1, 255, ⟨179, 12, 31, 23, 59⟩, false, []⟩ .cmdLong
        ⟨fun _ => 7, 0, 0, 0, false, true, false, false⟩).data ++ []) = some (e, []) ∧
      e = ⟨⟨179, 12, 31, 23, 59⟩, 0⟩ ∧ dateMatches (some e) none ⟨⟨179, 12, 31, 23, 59⟩, 0⟩ = true ∧
      dateMatches none (some e) ⟨⟨179, 12, 31, 23, 59⟩, 0⟩ = true ∧
      dateMatches (some e) (some e) ⟨⟨179, 12, 31, 23, 59⟩, 0⟩ = true :=
  (@parseDate_listedDate_iff true ⟨fun _ => 65, 130, 1, 255, ⟨179, 12, 31, 23, 59⟩, false, []⟩
    ⟨fun _ => 7, 0, 0, 0, false, true, false, false⟩ [] ⟨⟨179, 12, 31, 23, 59⟩, 0⟩ (by decide) rfl
    ⟨by decide, by decide, by decide, by decide, by decide, rfl⟩).mpr (by decide)

/-- Half past noon is listed as `12.30 PM`, which is not accepted. -/
theorem not_parseDate_listedDate : ¬∀ (iec : Bool) (dent : Dirent) (c : Cursor) (s : List UInt8)
    (d : Timestamp), dent.typeflags &&& 15 < 12 → d.toDate = dent.date → d.Listed →
      ∃ e, parseDate (listedDate dent (createentry iec dent .cmdLong c).data ++ s) = some (e, s) ∧ e = d ∧
        dateMatches (some e) none d = true ∧ dateMatches none (some e) d = true ∧
          dateMatches (some e) (some e) d = true := by
  intro h
  obtain ⟨e, hparse, -⟩ := h true ⟨fun _ => 65, 130, 1, 255, ⟨108, 8, 4, 12, 30⟩, false, []⟩
    ⟨fun _ => 7, 0, 0, 0, false, true, false, false⟩ [] ⟨⟨108, 8, 4, 12, 30⟩, 0⟩ (by decide) rfl
    ⟨by decide, by decide, by decide, by decide, by decide, rfl⟩
  have hnone : parseDate (listedDate ⟨fun _ => 65, 130, 1, 255, ⟨108, 8, 4, 12, 30⟩, false, []⟩
      (createentry true ⟨fun _ => 65, 130, 1, 255, ⟨108, 8, 4, 12, 30⟩, false, []⟩ .cmdLong
        ⟨fun _ => 7, 0, 0, 0, false, true, false, false⟩).data ++ []) = none := by
    rw [listedDate_eq (by decide) ⟨by decide, by decide, by decide, by decide⟩]
    decide
  rw [hnone] at hparse
  cases hparse

end NoDiskEmu.Dos
