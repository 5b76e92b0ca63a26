import NoDiskEmu.Clock.SoftRtc
import NoDiskEmu.Clock.Weekday
import NoDiskEmu.Dos.Numbers

/-! The commands `T-R` and `T-W` of `doscmd.c`, which read and set the clock in four formats. -/

namespace NoDiskEmu.Clock

open Library Dos

def ERROR_SYNTAX_UNKNOWN : ℕ := 30
def ERROR_SYNTAX_UNABLE : ℕ := 31
def ERROR_SYNTAX_TOOLONG : ℕ := 32

/-- `rtcstate_t`. -/
inductive RtcState
  | notFound | invalid | ok
  deriving DecidableEq

/-- What a command comes to: an error, the bytes of the error buffer that the host reads next, or a call
of `set_rtc`. Commands that do not concern the clock are `other`. -/
inductive TimeResult
  | error (code : ℕ)
  | reply (bytes : List UInt8)
  | setRtc (time : Tm)
  | other
  deriving DecidableEq

/-- `downames`. -/
def downames : List UInt8 :=
  [83, 85, 78, 46, 77, 79, 78, 46, 84, 85, 69, 83, 87, 69, 68, 46, 84, 72, 85, 82, 70, 82, 73, 46,
    83, 65, 84, 46]

/-- `asciitime_skel`. -/
def asciitimeSkel : List UInt8 :=
  [32, 120, 120, 47, 120, 120, 47, 120, 120, 32, 120, 120, 58, 120, 120, 58, 120, 120, 32, 120, 77, 13, 0]

def bcd2int (value : UInt8) : UInt8 :=
  let low : UInt8 := value &&& 0x0f
  let high : UInt8 := value >>> 4
  low + 10 * high

def int2bcd (value : UInt8) : UInt8 := value % 10 + 16 * (value / 10)

/-- `appendnumber(data + pos, value)`. -/
def numberAt (data : ℕ → UInt8) (pos : ℕ) (value : UInt8) : ℕ → UInt8 :=
  ((Pen.mk data pos).appendnumber value).data

/-- The error buffer up to `lastused`. -/
def errorReply (data : ℕ → UInt8) (lastused : ℕ) : TimeResult :=
  .reply ((List.range (lastused + 1)).map data)

def parseTimeread (rtc : RtcState) (time : Tm) (format : UInt8) (data : ℕ → UInt8) : TimeResult :=
  if rtc ≠ .ok then .error ERROR_SYNTAX_UNABLE
  else
    let hour := time.hour % 12
    let hour := if hour = 0 then 12 else hour
    let p : Pen := ⟨data, 0⟩
    if format = 65 then
      let data := Memory.write data 4 23 fun i => asciitimeSkel.getD i 0
      let data := Memory.write data 0 4 fun i => downames.getD (4 * time.wday.toNat + i) 0
      let data := numberAt data 5 (time.mon + 1)
      let data := numberAt data 8 time.mday
      let data := numberAt data 11 (time.year % 100)
      let data := numberAt data 14 hour
      let data := numberAt data 17 time.min
      let data := numberAt data 20 time.sec
      errorReply (Function.update data 23 (if time.hour < 12 then 65 else 80)) 25
    else if format = 66 then
      let p := (p.put time.wday).put (int2bcd (time.year % 100))
      let p := (p.put (int2bcd (time.mon + 1))).put (int2bcd time.mday)
      let p := (p.put (int2bcd hour)).put (int2bcd time.min)
      let p := (p.put (int2bcd time.sec)).put (if 12 ≤ time.hour then 1 else 0)
      errorReply (p.put 13).data 8
    else if format = 68 then
      let p := (p.put time.wday).put time.year
      let p := (p.put (time.mon + 1)).put time.mday
      let p := (p.put hour).put time.min
      let p := (p.put time.sec).put (if 12 ≤ time.hour then 1 else 0)
      errorReply (p.put 13).data 8
    else if format = 73 then
      let p := (p.appendnumber (19 + time.year / 100)).appendnumber (time.year % 100)
      let p := ((p.put 45).appendnumber (time.mon + 1)).put 45
      let p := (p.appendnumber time.mday).put 84
      let p := (p.appendnumber time.hour).put 58
      let p := (p.appendnumber time.min).put 58
      let p := (p.appendnumber time.sec).put 32
      let data := Memory.write p.data 20 3 fun i => downames.getD (4 * time.wday.toNat + i) 0
      errorReply (Function.update data 23 13) 23
    else .error ERROR_SYNTAX_UNKNOWN

/-- The command buffer of `size` bytes and two more, from `off` on. -/
def textFrom (size : ℕ) (buffer : ℕ → UInt8) (off : ℕ) : List UInt8 :=
  (List.range (size + 2 - off)).map fun i => buffer (off + i)

/-- Calls of `parse_number` with a character between two numbers, each number stored in a byte. -/
def numberFields : ℕ → List UInt8 → List UInt8
  | 0, _ => []
  | count + 1, s =>
    let r := parseNumber s
    UInt8.ofNat r.1 :: numberFields count r.2.tail

/-- The end of `parse_timewrite`, with the checks. -/
def setTime (time : Tm) : TimeResult :=
  let time := { time with mon := time.mon - 1 }
  let time := if time.year < 80 then { time with year := time.year + 100 } else time
  if time.mday = 0 ∨ 31 < time.mday ∨ 11 < time.mon ∨ 6 < time.wday ∨ 23 < time.hour ∨ 59 < time.min ∨
      59 < time.sec then .error ERROR_SYNTAX_UNABLE
  else .setRtc time

def parseTimewrite (size : ℕ) (buffer : ℕ → UInt8) (length : ℕ) : TimeResult :=
  let format := buffer 3
  if format = 65 then
    if length < 27 then .error ERROR_SYNTAX_UNABLE
    else
      match (List.range 7).find? fun i =>
        buffer 4 = downames.getD (4 * i) 0 && buffer 5 = downames.getD (4 * i + 1) 0 with
      | none => .error ERROR_SYNTAX_UNABLE
      | some i =>
        let field := fun n => (numberFields 6 (textFrom size buffer 9)).getD n 0
        let hour := field 3
        let hour :=
          if buffer 28 = 77 then
            let hour := if hour = 12 then 0 else hour
            if buffer 27 = 80 then hour + 12 else hour
          else hour
        setTime ⟨field 5, field 4, hour, field 1, field 0, field 2, .ofNat i⟩
  else if format = 66 then
    if length < 12 then .error ERROR_SYNTAX_UNABLE
    else
      let hour := bcd2int (buffer 8)
      let hour := if hour = 12 then 0 else hour
      let hour := if buffer 11 ≠ 0 then hour + 12 else hour
      setTime ⟨bcd2int (buffer 10), bcd2int (buffer 9), hour, bcd2int (buffer 7), bcd2int (buffer 6),
        bcd2int (buffer 5), buffer 4⟩
  else if format = 68 then
    if length < 12 then .error ERROR_SYNTAX_UNABLE
    else
      let hour := buffer 8
      let hour := if hour = 12 then 0 else hour
      let hour := if buffer 11 ≠ 0 then hour + 12 else hour
      setTime ⟨buffer 10, buffer 9, hour, buffer 7, buffer 6, buffer 5, buffer 4⟩
  else if format = 73 then
    if length < 23 then .error ERROR_SYNTAX_UNABLE
    else
      let r := parseNumber (textFrom size buffer 4)
      let year : UInt8 := .ofNat (r.1 + 65536 - 1900)
      let field := fun n => (numberFields 5 r.2.tail).getD n 0
      setTime ⟨field 4, field 3, field 2, field 1, field 0, year, dayOfWeek year.toUInt16 (field 0) (field 1)⟩
  else .error ERROR_SYNTAX_UNKNOWN

/-- `parse_time`; `read_rtc` gives `clock`. -/
def parseTime (size : ℕ) (rtc : RtcState) (clock : Tm) (data buffer : ℕ → UInt8) (length : ℕ) : TimeResult :=
  if rtc = .notFound then .error ERROR_SYNTAX_UNKNOWN
  else if buffer 2 = 82 then parseTimeread rtc clock (buffer 3) data
  else if buffer 2 = 87 then parseTimewrite size buffer length
  else .error ERROR_SYNTAX_UNKNOWN

/-- `parse_doscommand`, with `CONFIG_COMMAND_BUFFER_SIZE` for `size` and the error buffer after
`set_error(ERROR_OK)` for `data`. -/
def parseDoscommand (size : ℕ) (rtc : RtcState) (clock : Tm) (data buffer : ℕ → UInt8) (length : ℕ) :
    TimeResult :=
  if length = size then .error ERROR_SYNTAX_TOOLONG
  else
    let length := if 0 < length ∧ buffer (length - 1) = 13 then length - 1 else length
    if length = 0 then .error ERROR_SYNTAX_UNABLE
    else if buffer 0 ≠ 88 ∧ buffer 1 = 68 then .other
    else if buffer 0 = 84 then parseTime size rtc clock data buffer length
    else .other

/-! ### The bytes of a time -/

/-- A time that `T-W` accepts, in the years that two digits stand for. -/
structure Tm.Settable (tm : Tm) : Prop where
  sec : tm.sec < 60
  min : tm.min < 60
  hour : tm.hour < 24
  mday_pos : 0 < tm.mday
  mday : tm.mday ≤ 31
  mon : tm.mon < 12
  year_low : 80 ≤ tm.year
  year_high : tm.year ≤ 179
  wday : tm.wday < 7

/-- The hour on a clock of twelve. -/
def hour12 (hour : UInt8) : UInt8 := if hour % 12 = 0 then 12 else hour % 12

/-- The first `n` letters of a day of the week. -/
def dayName (wday : UInt8) (n : ℕ) : List UInt8 :=
  (List.range n).map fun i => downames.getD (4 * wday.toNat + i) 0

def asciiText (tm : Tm) : List UInt8 :=
  dayName tm.wday 4 ++ 32 :: (twoDigits (tm.mon + 1) ++ 47 :: (twoDigits tm.mday ++ 47 ::
    (twoDigits (tm.year % 100) ++ 32 :: (twoDigits (hour12 tm.hour) ++ 58 :: (twoDigits tm.min ++ 58 ::
      (twoDigits tm.sec ++ [32, if tm.hour < 12 then 65 else 80, 77, 13]))))))

def bytesText (code : UInt8 → UInt8) (year : UInt8) (tm : Tm) : List UInt8 :=
  [tm.wday, year, code (tm.mon + 1), code tm.mday, code (hour12 tm.hour), code tm.min, code tm.sec,
    if 12 ≤ tm.hour then 1 else 0, 13]

def isoText (tm : Tm) : List UInt8 :=
  twoDigits (19 + tm.year / 100) ++ (twoDigits (tm.year % 100) ++ 45 :: (twoDigits (tm.mon + 1) ++ 45 ::
    (twoDigits tm.mday ++ 84 :: (twoDigits tm.hour ++ 58 :: (twoDigits tm.min ++ 58 ::
      (twoDigits tm.sec ++ 32 :: (dayName tm.wday 3 ++ [13])))))))

/-- The bytes of a time in one of the formats. -/
def timeText (format : UInt8) (tm : Tm) : List UInt8 :=
  if format = 65 then asciiText tm
  else if format = 66 then bytesText int2bcd (int2bcd (tm.year % 100)) tm
  else if format = 68 then bytesText id tm.year tm
  else isoText tm

namespace Tm.Settable

variable {tm : Tm} {format : UInt8} {data : ℕ → UInt8}

theorem hour12_lt (tm : Tm) : hour12 tm.hour < 100 := by
  have hmod : tm.hour.toNat % 12 < 12 := Nat.mod_lt _ (by decide)
  rw [hour12]
  split
  · decide
  · rw [UInt8.lt_iff_toNat_lt, UInt8.toNat_mod]
    simp only [UInt8.reduceToNat]
    omega

theorem numberAt_lt {pos : ℕ} {value : UInt8} (h : value < 100) :
    numberAt data pos value = Memory.write data pos 2 fun i => (twoDigits value).getD i 0 := by
  rw [numberAt, Pen.appendnumber_lt h, Pen.data_puts]
  rfl

theorem year_lt : tm.year % 100 < 100 := by
  rw [UInt8.lt_iff_toNat_lt, UInt8.toNat_mod]
  exact Nat.mod_lt _ (by decide)

theorem century_lt : 19 + tm.year / 100 < 100 := by
  have hyear := tm.year.toNat_lt
  rw [UInt8.lt_iff_toNat_lt, UInt8.toNat_add, UInt8.toNat_div]
  simp only [UInt8.reduceToNat]
  omega

theorem mon_lt (h : tm.Settable) : tm.mon + 1 < 100 := by
  have hmon := UInt8.lt_iff_toNat_lt.mp h.mon
  rw [UInt8.lt_iff_toNat_lt, UInt8.toNat_add]
  simp only [UInt8.reduceToNat] at hmon ⊢
  omega

theorem timeread_ascii (h : tm.Settable) : parseTimeread .ok tm 65 data = .reply (asciiText tm) := by
  have hmday : tm.mday < 100 := UInt8.lt_of_le_of_lt h.mday (by decide)
  have hmin : tm.min < 100 := UInt8.lt_trans h.min (by decide)
  have hsec : tm.sec < 100 := UInt8.lt_trans h.sec (by decide)
  have hour := hour12_lt tm
  simp only [parseTimeread, ne_eq, not_true_eq_false, if_false, if_true]
  rw [← hour12, numberAt_lt h.mon_lt, numberAt_lt hmday, numberAt_lt year_lt, numberAt_lt hour,
    numberAt_lt hmin, numberAt_lt hsec]
  rfl

theorem timeread_iso (h : tm.Settable) : parseTimeread .ok tm 73 data = .reply (isoText tm) := by
  have hmday : tm.mday < 100 := UInt8.lt_of_le_of_lt h.mday (by decide)
  have hhour : tm.hour < 100 := UInt8.lt_trans h.hour (by decide)
  have hmin : tm.min < 100 := UInt8.lt_trans h.min (by decide)
  have hsec : tm.sec < 100 := UInt8.lt_trans h.sec (by decide)
  have h65 : ¬(73 : UInt8) = 65 := by decide
  have h66 : ¬(73 : UInt8) = 66 := by decide
  have h68 : ¬(73 : UInt8) = 68 := by decide
  simp only [parseTimeread, ne_eq, not_true_eq_false, if_false, if_neg h65, if_neg h66, if_neg h68, if_true]
  rw [Pen.appendnumber_lt century_lt, Pen.appendnumber_lt year_lt, Pen.appendnumber_lt h.mon_lt,
    Pen.appendnumber_lt hmday, Pen.appendnumber_lt hhour, Pen.appendnumber_lt hmin, Pen.appendnumber_lt hsec]
  rfl

/-- `T-R` answers with the bytes of the time. -/
theorem timeread_eq (h : tm.Settable) (hformat : format ∈ [65, 66, 68, 73]) :
    parseTimeread .ok tm format data = .reply (timeText format tm) := by
  simp only [List.mem_cons, List.not_mem_nil, or_false] at hformat
  rcases hformat with rfl | rfl | rfl | rfl
  · exact h.timeread_ascii
  · rfl
  · rfl
  · exact h.timeread_iso

/-! ### The bytes read back -/

theorem hour_back {hour : UInt8} (h : hour < 24) :
    (if hour12 hour = 12 then 0 else hour12 hour) + (if 12 ≤ hour then 12 else 0) = hour := by
  have hlt : hour.toNat < 24 := h
  obtain ⟨k, hk, rfl⟩ : ∃ k < 24, hour = UInt8.ofNat k := ⟨hour.toNat, hlt, by simp⟩
  interval_cases k <;> rfl

theorem year_back {year : UInt8} (hlow : 80 ≤ year) (hhigh : year ≤ 179) :
    (if year % 100 < 80 then year % 100 + 100 else year % 100) = year := by
  have hlow' : 80 ≤ year.toNat := hlow
  have hhigh' : year.toNat ≤ 179 := hhigh
  have hmod : (year % 100).toNat = year.toNat % 100 := UInt8.toNat_mod _ _
  rw [← UInt8.toNat_inj]
  by_cases h : year % 100 < 80
  · have h' := UInt8.lt_iff_toNat_lt.mp h
    rw [if_pos h, UInt8.toNat_add, hmod]
    simp only [UInt8.reduceToNat] at h' ⊢
    omega
  · have h' := mt UInt8.lt_iff_toNat_lt.mpr h
    rw [if_neg h, hmod]
    simp only [UInt8.reduceToNat] at h' ⊢
    omega

theorem bcd_back {value : UInt8} (h : value < 100) : bcd2int (int2bcd value) = value := by
  have hall : ∀ k < 100, bcd2int (int2bcd (UInt8.ofNat k)) = UInt8.ofNat k := by decide
  have hlt : value.toNat < 100 := h
  simpa using hall value.toNat hlt

/-- The checks let a time pass, and put its year into the right century. -/
theorem setTime_eq (h : tm.Settable) {year wday : UInt8}
    (hyear : (if year < 80 then year + 100 else year) = tm.year) (hwday : wday < 7) :
    setTime ⟨tm.sec, tm.min, tm.hour, tm.mday, tm.mon + 1, year, wday⟩ = .setRtc { tm with wday } := by
  have hmon : tm.mon + 1 - 1 = tm.mon := UInt8.add_sub_cancel _ _
  have hchecks : ¬(tm.mday = 0 ∨ 31 < tm.mday ∨ 11 < tm.mon ∨ 6 < wday ∨ 23 < tm.hour ∨ 59 < tm.min ∨
      59 < tm.sec) := by
    obtain ⟨hsec, hmin, hhour, hpos, hmday, hmon, -, -, -⟩ := h
    simp only [UInt8.lt_iff_toNat_lt, UInt8.le_iff_toNat_le, ← UInt8.toNat_inj, UInt8.reduceToNat] at *
    omega
  have htime : (if year < 80 then (⟨tm.sec, tm.min, tm.hour, tm.mday, tm.mon, year + 100, wday⟩ : Tm)
      else ⟨tm.sec, tm.min, tm.hour, tm.mday, tm.mon, year, wday⟩) = { tm with wday } := by
    by_cases hlt : year < 80
    · rw [if_pos hlt] at hyear ⊢
      rw [hyear]
    · rw [if_neg hlt] at hyear ⊢
      rw [hyear]
  simp only [setTime, hmon, htime]
  rw [if_neg hchecks]

theorem textFrom_eq {size n off : ℕ} {buffer : ℕ → UInt8} {xs : List UInt8}
    (hxs : (List.range n).map buffer = xs) (hoff : off ≤ n) (hn : n ≤ size + 2) :
    textFrom size buffer off = xs.drop off ++ textFrom size buffer n := by
  have hdrop : ∀ k ≤ size + 2, textFrom size buffer k = ((List.range (size + 2)).map buffer).drop k := by
    intro k hk
    rw [textFrom]
    apply List.ext_getElem
    · simp
    · intro i hi hi'
      simp
  have hlen : xs.length = n := by rw [← hxs, List.length_map, List.length_range]
  rw [hdrop n hn, hdrop off (hoff.trans hn)]
  have hsplit : (List.range (size + 2)).map buffer = xs ++ ((List.range (size + 2)).map buffer).drop n := by
    rw [← hxs, ← List.map_drop, ← List.map_append]
    congr 1
    conv_lhs => rw [← List.take_append_drop n (List.range (size + 2)), List.take_range, Nat.min_eq_left hn]
  conv_lhs => rw [hsplit]
  rw [List.drop_append_of_le_length (by omega)]

theorem numberFields_two {count : ℕ} {value c : UInt8} {s : List UInt8} (h : value < 100)
    (hc : isdigit c = false) :
    numberFields (count + 1) (twoDigits value ++ c :: s) = value :: numberFields count s := by
  have hparse : parseNumber (twoDigits value ++ c :: s) = (value.toNat, c :: s) := parseNumber_two h hc
  rw [numberFields, hparse, UInt8.ofNat_toNat, List.tail_cons]

theorem dayName_found : ∀ w < 7, (List.range 7).find? (fun i =>
    downames.getD (4 * w) 0 = downames.getD (4 * i) 0 &&
      downames.getD (4 * w + 1) 0 = downames.getD (4 * i + 1) 0) = some w := by
  decide

section

variable {size n : ℕ} {buffer : ℕ → UInt8} {xs : List UInt8}

theorem byte_eq (hxs : (List.range n).map buffer = xs) {i : ℕ} (hi : i < n) : buffer i = xs.getD i 0 := by
  subst hxs
  simp [hi]

/-- The hour of a clock of twelve with the mark of the afternoon. -/
theorem hour_marked {hour : UInt8} (h : hour < 24) {p : Prop} [Decidable p] (hp : p ↔ 12 ≤ hour) :
    (if p then (if hour12 hour = 12 then 0 else hour12 hour) + 12
      else if hour12 hour = 12 then 0 else hour12 hour) = hour := by
  have hback := hour_back h
  by_cases hpm : 12 ≤ hour
  · rw [if_pos hpm] at hback
    rw [if_pos (hp.mpr hpm), hback]
  · rw [if_neg hpm, UInt8.add_zero] at hback
    rw [if_neg (mt hp.mp hpm), hback]

theorem timewrite_ascii (h : tm.Settable) (hsize : 28 ≤ size)
    (hxs : (List.range 30).map buffer = [84, 45, 87, 65] ++ asciiText tm) :
    parseTimewrite size buffer 29 = .setRtc tm := by
  have hmday : tm.mday < 100 := UInt8.lt_of_le_of_lt h.mday (by decide)
  have hmin : tm.min < 100 := UInt8.lt_trans h.min (by decide)
  have hsec : tm.sec < 100 := UInt8.lt_trans h.sec (by decide)
  have hformat : buffer 3 = 65 := byte_eq hxs (by decide)
  have hname : buffer 4 = downames.getD (4 * tm.wday.toNat) 0 := byte_eq hxs (by decide)
  have hname' : buffer 5 = downames.getD (4 * tm.wday.toNat + 1) 0 := byte_eq hxs (by decide)
  have hmark : buffer 27 = if tm.hour < 12 then 65 else 80 := byte_eq hxs (by decide)
  have hm : buffer 28 = 77 := byte_eq hxs (by decide)
  have hfields : numberFields 6 (textFrom size buffer 9) =
      [tm.mon + 1, tm.mday, tm.year % 100, hour12 tm.hour, tm.min, tm.sec] := by
    have hdrop : ([84, 45, 87, 65] ++ asciiText tm).drop 9 = twoDigits (tm.mon + 1) ++ 47 ::
        (twoDigits tm.mday ++ 47 :: (twoDigits (tm.year % 100) ++ 32 :: (twoDigits (hour12 tm.hour) ++ 58 ::
          (twoDigits tm.min ++ 58 ::
            (twoDigits tm.sec ++ [32, if tm.hour < 12 then 65 else 80, 77, 13]))))) := rfl
    rw [textFrom_eq hxs (by decide) (by omega), hdrop]
    simp only [List.append_assoc, List.cons_append]
    rw [numberFields_two h.mon_lt (by decide), numberFields_two hmday (by decide),
      numberFields_two year_lt (by decide), numberFields_two (hour12_lt tm) (by decide),
      numberFields_two hmin (by decide), numberFields_two hsec (by decide)]
    rfl
  have hpm : buffer 27 = 80 ↔ 12 ≤ tm.hour := by
    rw [hmark, ← UInt8.not_lt]
    split <;> simp_all
  have hwday : UInt8.ofNat tm.wday.toNat = tm.wday := UInt8.ofNat_toNat
  simp only [parseTimewrite, hformat, if_true, hname, hname', dayName_found _ (UInt8.lt_iff_toNat_lt.mp h.wday),
    hfields, hm, hwday]
  have hhour := hour_marked h.hour hpm
  simp only [List.getD_cons_succ, List.getD_cons_zero, hhour]
  rw [if_neg (by decide)]
  exact setTime_eq h (year_back h.year_low h.year_high) h.wday

theorem timewrite_bcd (h : tm.Settable)
    (hxs : (List.range 13).map buffer = [84, 45, 87, 66] ++ bytesText int2bcd (int2bcd (tm.year % 100)) tm) :
    parseTimewrite size buffer 12 = .setRtc tm := by
  have hmday : tm.mday < 100 := UInt8.lt_of_le_of_lt h.mday (by decide)
  have hmin : tm.min < 100 := UInt8.lt_trans h.min (by decide)
  have hsec : tm.sec < 100 := UInt8.lt_trans h.sec (by decide)
  have hformat : buffer 3 = 66 := byte_eq hxs (by decide)
  have hbytes : buffer 4 = tm.wday ∧ buffer 5 = int2bcd (tm.year % 100) ∧ buffer 6 = int2bcd (tm.mon + 1) ∧
      buffer 7 = int2bcd tm.mday ∧ buffer 8 = int2bcd (hour12 tm.hour) ∧ buffer 9 = int2bcd tm.min ∧
      buffer 10 = int2bcd tm.sec ∧ buffer 11 = if 12 ≤ tm.hour then 1 else 0 := by
    refine ⟨?_, ?_, ?_, ?_, ?_, ?_, ?_, ?_⟩ <;> exact byte_eq hxs (by decide)
  obtain ⟨h4, h5, h6, h7, h8, h9, h10, h11⟩ := hbytes
  have hpm : buffer 11 ≠ 0 ↔ 12 ≤ tm.hour := by
    rw [h11]
    split <;> simp_all
  have hhour := hour_marked h.hour hpm
  have hne : ¬(66 : UInt8) = 65 := by decide
  simp only [parseTimewrite, hformat, if_neg hne, if_true, h4, h5, h6, h7, h8, h9, h10, bcd_back h.mon_lt,
    bcd_back year_lt, bcd_back hmday, bcd_back (hour12_lt tm), bcd_back hmin, bcd_back hsec, hhour]
  rw [if_neg (by decide)]
  exact setTime_eq h (year_back h.year_low h.year_high) h.wday

theorem timewrite_decimal (h : tm.Settable)
    (hxs : (List.range 13).map buffer = [84, 45, 87, 68] ++ bytesText id tm.year tm) :
    parseTimewrite size buffer 12 = .setRtc tm := by
  have hformat : buffer 3 = 68 := byte_eq hxs (by decide)
  have hbytes : buffer 4 = tm.wday ∧ buffer 5 = tm.year ∧ buffer 6 = tm.mon + 1 ∧ buffer 7 = tm.mday ∧
      buffer 8 = hour12 tm.hour ∧ buffer 9 = tm.min ∧ buffer 10 = tm.sec ∧
      buffer 11 = if 12 ≤ tm.hour then 1 else 0 := by
    refine ⟨?_, ?_, ?_, ?_, ?_, ?_, ?_, ?_⟩ <;> exact byte_eq hxs (by decide)
  obtain ⟨h4, h5, h6, h7, h8, h9, h10, h11⟩ := hbytes
  have hpm : buffer 11 ≠ 0 ↔ 12 ≤ tm.hour := by
    rw [h11]
    split <;> simp_all
  have hhour := hour_marked h.hour hpm
  have hne : ¬(68 : UInt8) = 65 := by decide
  have hne' : ¬(68 : UInt8) = 66 := by decide
  have hyear : (if tm.year < 80 then tm.year + 100 else tm.year) = tm.year :=
    if_neg (UInt8.not_lt.mpr h.year_low)
  simp only [parseTimewrite, hformat, if_neg hne, if_neg hne', if_true, h4, h5, h6, h7, h8, h9, h10, hhour]
  rw [if_neg (by decide)]
  exact setTime_eq h hyear h.wday

theorem timewrite_iso (h : tm.Settable) (hsize : 26 ≤ size)
    (hxs : (List.range 28).map buffer = [84, 45, 87, 73] ++ isoText tm) :
    parseTimewrite size buffer 27 =
      .setRtc { tm with wday := dayOfWeek tm.year.toUInt16 (tm.mon + 1) tm.mday } := by
  have hmday : tm.mday < 100 := UInt8.lt_of_le_of_lt h.mday (by decide)
  have hhour : tm.hour < 100 := UInt8.lt_trans h.hour (by decide)
  have hmin : tm.min < 100 := UInt8.lt_trans h.min (by decide)
  have hsec : tm.sec < 100 := UInt8.lt_trans h.sec (by decide)
  have hformat : buffer 3 = 73 := byte_eq hxs (by decide)
  have hlow : 80 ≤ tm.year.toNat := h.year_low
  have hhigh : tm.year.toNat ≤ 179 := h.year_high
  -- the digits behind the year, up to the end of the text
  obtain ⟨rest, hrest, hnot⟩ : ∃ rest, textFrom size buffer 4 = twoDigits (19 + tm.year / 100) ++
      (twoDigits (tm.year % 100) ++ 45 :: rest) ∧
      numberFields 5 rest = [tm.mon + 1, tm.mday, tm.hour, tm.min, tm.sec] := by
    have hdrop : ([84, 45, 87, 73] ++ isoText tm).drop 4 = isoText tm := rfl
    rw [textFrom_eq hxs (by decide) (by omega), hdrop, isoText]
    simp only [List.append_assoc, List.cons_append]
    refine ⟨_, rfl, ?_⟩
    rw [numberFields_two h.mon_lt (by decide), numberFields_two hmday (by decide),
      numberFields_two hhour (by decide), numberFields_two hmin (by decide), numberFields_two hsec (by decide)]
    rfl
  have hparse : parseNumber (textFrom size buffer 4) =
      (100 * (19 + tm.year / 100).toNat + (tm.year % 100).toNat, 45 :: rest) := by
    rw [hrest]
    exact parseNumber_four century_lt year_lt rfl
  have hyear : UInt8.ofNat (100 * (19 + tm.year / 100).toNat + (tm.year % 100).toNat + 65536 - 1900) =
      tm.year := by
    rw [← UInt8.toNat_inj, UInt8.toNat_ofNat', UInt8.toNat_add, UInt8.toNat_div, UInt8.toNat_mod]
    simp only [UInt8.reduceToNat]
    omega
  have hsame : (if tm.year < 80 then tm.year + 100 else tm.year) = tm.year :=
    if_neg (UInt8.not_lt.mpr h.year_low)
  have hne : ¬(73 : UInt8) = 65 := by decide
  have hne' : ¬(73 : UInt8) = 66 := by decide
  have hne'' : ¬(73 : UInt8) = 68 := by decide
  simp only [parseTimewrite, hformat, if_neg hne, if_neg hne', if_neg hne'', if_true, hparse, hyear,
    List.tail_cons, hnot, List.getD_cons_succ, List.getD_cons_zero]
  rw [if_neg (by decide)]
  exact setTime_eq h hsame (dayOfWeek_lt _ _ _)

end

end Tm.Settable

/-- The time that a command with the bytes of `tm` sets. -/
def writtenTime (format : UInt8) (tm : Tm) : Tm :=
  if format = 73 then { tm with wday := dayOfWeek tm.year.toUInt16 (tm.mon + 1) tm.mday } else tm

theorem timewrite_eq {size : ℕ} (hsize : 30 < size) {tm : Tm} (h : tm.Settable) {format : UInt8}
    (hformat : format ∈ [65, 66, 68, 73]) {buffer : ℕ → UInt8}
    (hxs : (List.range (4 + (timeText format tm).length)).map buffer =
      [84, 45, 87, format] ++ timeText format tm) :
    parseTimewrite size buffer (3 + (timeText format tm).length) = .setRtc (writtenTime format tm) := by
  simp only [List.mem_cons, List.not_mem_nil, or_false] at hformat
  rcases hformat with rfl | rfl | rfl | rfl
  · exact h.timewrite_ascii (by omega) hxs
  · exact h.timewrite_bcd hxs
  · exact h.timewrite_decimal hxs
  · exact h.timewrite_iso (by omega) hxs

theorem timeText_length (format : UInt8) (tm : Tm) :
    9 ≤ (timeText format tm).length ∧ (timeText format tm).length ≤ 26 ∧
      (timeText format tm).getD ((timeText format tm).length - 1) 0 = 13 := by
  unfold timeText
  split
  · exact ⟨show 9 ≤ 26 by decide, show 26 ≤ 26 by decide, rfl⟩
  split
  · exact ⟨show 9 ≤ 9 by decide, show 9 ≤ 26 by decide, rfl⟩
  split
  · exact ⟨show 9 ≤ 9 by decide, show 9 ≤ 26 by decide, rfl⟩
  · exact ⟨show 9 ≤ 24 by decide, show 24 ≤ 26 by decide, rfl⟩

/-- What `T-R` returns, sent back with `T-W`, sets the same time; in the ISO format the day of the week is
computed from the date. -/
theorem timewrite_timeread {size : ℕ} (hsize : 30 < size) {clock : Tm} (h : clock.Settable) {format : UInt8}
    (hformat : format ∈ [65, 66, 68, 73]) :
    ∃ reply : List UInt8,
      (∀ data buffer length, (List.range 4).map buffer = [84, 45, 82, format] →
        length = 4 ∨ length = 5 ∧ buffer 4 = 13 →
        parseDoscommand size .ok clock data buffer length = .reply reply) ∧
      ∀ rtc clock' data buffer, rtc ≠ .notFound →
        (List.range (4 + reply.length)).map buffer = [84, 45, 87, format] ++ reply →
        parseDoscommand size rtc clock' data buffer (4 + reply.length) =
          .setRtc (writtenTime format clock) := by
  refine ⟨timeText format clock, fun data buffer length hxs hlen => ?_, fun rtc clock' data buffer hrtc hxs => ?_⟩
  · have hT : buffer 0 = 84 := Tm.Settable.byte_eq hxs (by decide)
    have hdash : buffer 1 = 45 := Tm.Settable.byte_eq hxs (by decide)
    have hR : buffer 2 = 82 := Tm.Settable.byte_eq hxs (by decide)
    have hlast : buffer 3 = format := Tm.Settable.byte_eq hxs (by decide)
    have hstrip : (if 0 < length ∧ buffer (length - 1) = 13 then length - 1 else length) = 4 := by
      rcases hlen with rfl | ⟨rfl, hcr⟩
      · rw [if_neg]
        rintro ⟨-, hcr⟩
        have hcr' : format = 13 := hlast.symm.trans hcr
        subst hcr'
        exact absurd hformat (by decide)
      · rw [if_pos ⟨by decide, hcr⟩]
    rw [parseDoscommand, if_neg (by omega)]
    simp only [hstrip, hT, hdash, parseTime, hR, hlast, h.timeread_eq hformat]
    rfl
  · obtain ⟨hlow, hhigh, hcr⟩ := timeText_length format clock
    have hT : buffer 0 = 84 := Tm.Settable.byte_eq hxs (by omega)
    have hdash : buffer 1 = 45 := Tm.Settable.byte_eq hxs (by omega)
    have hW : buffer 2 = 87 := Tm.Settable.byte_eq hxs (by omega)
    have hlast : buffer (4 + (timeText format clock).length - 1) = 13 := by
      rw [Tm.Settable.byte_eq hxs (by omega), ← hcr,
        show 4 + (timeText format clock).length - 1 = (timeText format clock).length - 1 + 4 by omega]
      rfl
    have hlength : (if 0 < 4 + (timeText format clock).length ∧
        buffer (4 + (timeText format clock).length - 1) = 13 then 4 + (timeText format clock).length - 1
        else 4 + (timeText format clock).length) = 3 + (timeText format clock).length := by
      rw [if_pos ⟨by omega, hlast⟩]
      omega
    have hpos : ¬3 + (timeText format clock).length = 0 := by omega
    have hdir : ¬(¬(84 : UInt8) = 88 ∧ (45 : UInt8) = 68) := by decide
    have hread : ¬(87 : UInt8) = 82 := by decide
    rw [parseDoscommand, if_neg (by omega)]
    simp only [hlength, hT, hdash, hW, parseTime, ne_eq, if_neg hpos, if_neg hdir, if_neg hread, if_neg hrtc, if_true]
    exact timewrite_eq hsize h hformat hxs

/-- A time on a Saturday in August 2008, in the ISO format. -/
theorem timewrite_iso_2008 : august2008.Settable ∧ ∃ reply : List UInt8,
    (∀ data buffer length, (List.range 4).map buffer = [84, 45, 82, 73] →
      length = 4 ∨ length = 5 ∧ buffer 4 = 13 →
      parseDoscommand 120 .ok august2008 data buffer length = .reply reply) ∧
    ∀ rtc clock' data buffer, rtc ≠ .notFound →
      (List.range (4 + reply.length)).map buffer = [84, 45, 87, 73] ++ reply →
      parseDoscommand 120 rtc clock' data buffer (4 + reply.length) = .setRtc (writtenTime 73 august2008) :=
  have hset : august2008.Settable := ⟨by decide, by decide, by decide, by decide, by decide, by decide,
    by decide, by decide, by decide⟩
  ⟨hset, timewrite_timeread (by decide) hset (by decide)⟩

end NoDiskEmu.Clock
