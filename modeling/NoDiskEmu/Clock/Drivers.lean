import NoDiskEmu.Clock.Commands

/-! The clocks of `rtc.c`: a DS1307 or DS3231 and a PCF8583 on the I2C bus, the clock of the LPC17xx and the
one in software, and the choice between them. -/

namespace NoDiskEmu.Clock

open Library

/-- The clocks that the `CONFIG_RTC_` symbols enable. -/
structure Enabled where
  dsrtc : Bool
  pcf8583 : Bool
  lpc17xx : Bool
  software : Bool

/-- `rtc_type_t`. -/
inductive RtcType
  | none | software | pcf8583 | lpc17xx | dsrtc
  deriving DecidableEq

inductive DsType
  | ds1307 | ds3231
  deriving DecidableEq

structure DsChip where
  type : DsType
  registers : ℕ → UInt8

/-- The temperature of a DS3231 cannot be written. -/
def DsChip.write (chip : DsChip) (reg n : ℕ) (data : ℕ → UInt8) : DsChip :=
  { chip with
    registers := fun i =>
      if chip.type = .ds3231 ∧ (i = 17 ∨ i = 18) then chip.registers i
      else Memory.write chip.registers reg n data i }

/-- The registers of `LPC_RTC`. -/
structure LpcRtc where
  ccr : UInt32
  sec : UInt32
  min : UInt32
  hour : UInt32
  dom : UInt32
  month : UInt32
  year : UInt32
  dow : UInt32
  gpreg0 : UInt32
  gpreg1 : UInt32

/-- The variables of the drivers, and the registers of the chips that are there. -/
structure Rtc where
  state : RtcState
  current : RtcType
  dsType : DsType
  ds : Option DsChip
  pcf : Option (ℕ → UInt8)
  lpc : LpcRtc
  soft : UInt32

/-- The variables before `rtc_init`. -/
def boot (ds : Option DsChip) (pcf : Option (ℕ → UInt8)) (lpc : LpcRtc) : Rtc :=
  ⟨.notFound, .none, .ds1307, ds, pcf, lpc, 1217647125⟩

def rtcDefaultDate : Tm := ⟨0, 0, 0, 31, 8 - 1, 82, 2⟩

namespace Enabled

variable (e : Enabled)

/-- `NEED_RTCMUX`. -/
def mux : Bool := 1 < e.dsrtc.toNat + e.pcf8583.toNat + e.lpc17xx.toNat + e.software.toNat

def has : RtcType → Bool
  | .none => false
  | .software => e.software
  | .pcf8583 => e.pcf8583
  | .lpc17xx => e.lpc17xx
  | .dsrtc => e.dsrtc

/-- The driver behind `read_rtc` and `set_rtc`: the current one, or without the multiplexer the only one. -/
def driver (current : RtcType) : RtcType :=
  if e.mux then if e.has current then current else .none
  else if e.dsrtc then .dsrtc
  else if e.pcf8583 then .pcf8583
  else if e.lpc17xx then .lpc17xx
  else if e.software then .software
  else .none

end Enabled

/-! ### DS1307 and DS3231 -/

def dsrtcRead (s : Rtc) : Tm :=
  if s.state ≠ .ok then rtcDefaultDate
  else
    match s.ds with
    | none => rtcDefaultDate
    | some chip =>
      let tmp := chip.registers
      { sec := bcd2int (tmp 0 &&& 0x7f)
        min := bcd2int (tmp 1)
        hour := bcd2int (tmp 2)
        mday := bcd2int (tmp 4)
        mon := bcd2int (tmp 5 &&& 0x7f) - 1
        wday := bcd2int (tmp 3) - 1
        year := bcd2int (tmp 6) + (if tmp 5 &&& 0x80 ≠ 0 then 100 else 0) + 100 }

/-- The bytes that `dsrtc_set` writes; no `uint8_t` reaches 2100. -/
def dsrtcBytes (time : Tm) : List UInt8 :=
  [int2bcd time.sec, int2bcd time.min, int2bcd time.hour, int2bcd (time.wday + 1), int2bcd time.mday,
    int2bcd (time.mon + 1) ||| (if 2100 ≤ time.year.toNat then 0x80 else 0), int2bcd (time.year % 100)]

def dsrtcSet (s : Rtc) (time : Tm) : Rtc :=
  if s.state = .notFound then s
  else
    let setChip := fun chip : DsChip =>
      let chip := chip.write 0 7 fun i => (dsrtcBytes time).getD i 0
      match s.dsType with
      | .ds1307 => chip.write 7 1 fun _ => 0
      | .ds3231 => (chip.write 14 1 fun _ => 0).write 15 1 fun _ => 0
    { s with ds := s.ds.map setChip, state := .ok }

def dsrtcInit (s : Rtc) : Rtc :=
  match s.ds with
  | none => { s with state := .notFound }
  | some chip =>
    let chip := chip.write 18 1 fun _ => 0x55
    let dsType := if chip.registers 18 = 0x55 then DsType.ds1307 else .ds3231
    let tmp := if chip.registers 18 = 0x55 then chip.registers 0 else chip.registers 15
    { s with ds := some chip, dsType, state := if tmp &&& 0x80 ≠ 0 then .invalid else .ok }

/-! ### PCF8583 -/

/-- A word of the union in `pcf8583.c`. -/
def word (low high : UInt8) : UInt16 := low.toUInt16 + 256 * high.toUInt16

/-- The year and its complement as `pcf8583.c` stores them. -/
def yearBytes (year : UInt16) : List UInt8 :=
  [year.toUInt8, (year / 256).toUInt8, (year ^^^ 0xffff).toUInt8, ((year ^^^ 0xffff) / 256).toUInt8]

/-- The loop of `pcf8583_read`: three steps reach any two bits. -/
def rollOver (bits : UInt8) : ℕ → UInt16 → UInt16
  | 0, year => year
  | fuel + 1, year => if year &&& 3 ≠ bits.toUInt16 then rollOver bits fuel (year + 1) else year

def pcf8583Read (s : Rtc) : Tm × Rtc :=
  if s.state ≠ .ok then (rtcDefaultDate, s)
  else
    match s.pcf with
    | none => (rtcDefaultDate, s)
    | some regs =>
      let bits : UInt8 := regs 5 >>> 6
      let year := word (regs 16) (regs 17)
      let stored := rollOver bits 3 year
      let time : Tm :=
        { sec := bcd2int (regs 2)
          min := bcd2int (regs 3)
          hour := bcd2int (regs 4)
          mday := bcd2int (regs 5 &&& 0x3f)
          mon := bcd2int (regs 6 &&& 0x1f) - 1
          wday := bcd2int (regs 6 >>> 5)
          year := (stored - 1900).toUInt8 }
      (time, if year &&& 3 ≠ bits.toUInt16 then
        { s with pcf := some (Memory.write regs 16 4 fun i => (yearBytes stored).getD i 0) } else s)

/-- The bytes of the time that `pcf8583_set` writes. -/
def pcf8583Bytes (time : Tm) : List UInt8 :=
  [int2bcd time.sec, int2bcd time.min, int2bcd time.hour, int2bcd time.mday ||| ((time.year &&& 3) <<< 6),
    int2bcd (time.mon + 1) ||| (time.wday <<< 5)]

def pcf8583Set (s : Rtc) (time : Tm) : Rtc :=
  if s.state = .notFound then s
  else
    let setChip := fun regs : ℕ → UInt8 =>
      let regs := Function.update regs 0 0x80
      let regs := Memory.write regs 2 5 fun i => (pcf8583Bytes time).getD i 0
      let regs := Memory.write regs 16 4 fun i => (yearBytes (time.year.toUInt16 + 1900)).getD i 0
      Function.update regs 0 0
    { s with pcf := s.pcf.map setChip, state := .ok }

/-! ### LPC17xx and software -/

def SIGNATURE_GPREG0 : UInt32 := 0xdeadbeef

def SIGNATURE_GPREG1 : UInt32 := 0xfce2ea31

def lpcrtcInit (s : Rtc) : Rtc :=
  { s with
    state := if s.lpc.ccr &&& 1 ≠ 0 ∧ s.lpc.gpreg0 = SIGNATURE_GPREG0 ∧ s.lpc.gpreg1 = SIGNATURE_GPREG1 then
      .ok else .invalid }

def lpcrtcRead (s : Rtc) : Tm :=
  if s.state ≠ .ok then rtcDefaultDate
  else
    { sec := s.lpc.sec.toUInt8
      min := s.lpc.min.toUInt8
      hour := s.lpc.hour.toUInt8
      mday := s.lpc.dom.toUInt8
      mon := s.lpc.month.toUInt8
      year := (s.lpc.year - 1900).toUInt8
      wday := s.lpc.dow.toUInt8 }

def lpcrtcSet (s : Rtc) (time : Tm) : Rtc :=
  { s with
    state := .ok
    lpc :=
      { sec := time.sec.toUInt32
        min := time.min.toUInt32
        hour := time.hour.toUInt32
        dom := time.mday.toUInt32
        month := time.mon.toUInt32
        year := time.year.toUInt32 + 1900
        dow := time.wday.toUInt32
        ccr := 1
        gpreg0 := SIGNATURE_GPREG0
        gpreg1 := SIGNATURE_GPREG1 } }

def softrtcInit (s : Rtc) : Rtc := { s with state := .ok }

def softrtcRead (s : Rtc) : Option Tm := gmtime s.soft

def softrtcSet (s : Rtc) (time : Tm) : Rtc := { s with soft := mktime time }

/-! ### `rtc.c` -/

/-- `read_rtc`, with what is in `*time` before; it has no result when `gmtime` has none. -/
def readRtc (e : Enabled) (s : Rtc) (time : Tm) : Option Tm × Rtc :=
  match e.driver s.current with
  | .dsrtc => (some (dsrtcRead s), s)
  | .pcf8583 => (some (pcf8583Read s).1, (pcf8583Read s).2)
  | .lpc17xx => (some (lpcrtcRead s), s)
  | .software => (softrtcRead s, s)
  | .none => (some time, s)

def setRtc (e : Enabled) (s : Rtc) (time : Tm) : Rtc :=
  match e.driver s.current with
  | .dsrtc => dsrtcSet s time
  | .pcf8583 => pcf8583Set s time
  | .lpc17xx => lpcrtcSet s time
  | .software => softrtcSet s time
  | .none => s

/-- `pcf8583_init` reads the clock to bring the stored year up to date. -/
def pcf8583Init (e : Enabled) (s : Rtc) : Rtc :=
  match s.pcf with
  | none => { s with state := .notFound }
  | some regs =>
    let regs := Function.update regs 0 0
    if regs 16 = regs 18 ^^^ 0xff ∧ regs 17 = regs 19 ^^^ 0xff then
      (readRtc e { s with pcf := some regs, state := .ok } rtcDefaultDate).2
    else { s with pcf := some regs, state := .invalid }

/-- `rtc_init`; the software clock does not become the current one. -/
def rtcInit (e : Enabled) (s : Rtc) : Rtc :=
  if e.mux then
    let s := if e.dsrtc then dsrtcInit s else s
    if e.dsrtc ∧ s.state ≠ .notFound then { s with current := .dsrtc }
    else
      let s := if e.pcf8583 then pcf8583Init e s else s
      if e.pcf8583 ∧ s.state ≠ .notFound then { s with current := .pcf8583 }
      else
        let s := if e.lpc17xx then lpcrtcInit s else s
        if e.lpc17xx ∧ s.state ≠ .notFound then { s with current := .lpc17xx }
        else if e.software then softrtcInit s
        else { s with state := .notFound }
  else if e.dsrtc then dsrtcInit s
  else if e.pcf8583 then pcf8583Init e s
  else if e.lpc17xx then lpcrtcInit s
  else if e.software then softrtcInit s
  else s

/-! ### The times that `T-W` sets -/

/-- What the checks of `parse_timewrite` let pass. -/
structure Tm.Accepted (tm : Tm) : Prop where
  sec : tm.sec.toNat < 60
  min : tm.min.toNat < 60
  hour : tm.hour.toNat < 24
  mday : tm.mday.toNat < 32
  mon : tm.mon.toNat < 12
  wday : tm.wday.toNat < 7
  year : 80 ≤ tm.year.toNat

theorem accepted_of_checks {t : Tm} (h : ¬(t.mday = 0 ∨ 31 < t.mday ∨ 11 < t.mon ∨ 6 < t.wday ∨ 23 < t.hour ∨
    59 < t.min ∨ 59 < t.sec)) (hyear : 80 ≤ t.year.toNat) : t.Accepted := by
  simp only [not_or, UInt8.lt_iff_toNat_lt, UInt8.reduceToNat] at h
  exact ⟨by omega, by omega, by omega, by omega, by omega, by omega, hyear⟩

theorem accepted_of_setTime {time tm : Tm} (h : setTime time = .setRtc tm) : tm.Accepted := by
  rw [setTime] at h
  dsimp only at h
  split at h
  · next hlow =>
    split at h
    · cases h
    · next hchecks =>
      obtain rfl := TimeResult.setRtc.inj h
      have hlow' := UInt8.lt_iff_toNat_lt.mp hlow
      refine accepted_of_checks hchecks ?_
      rw [UInt8.toNat_add]
      simp only [UInt8.reduceToNat] at hlow' ⊢
      omega
  · next hhigh =>
    split at h
    · cases h
    · next hchecks =>
      obtain rfl := TimeResult.setRtc.inj h
      exact accepted_of_checks hchecks (UInt8.le_iff_toNat_le.mp (UInt8.not_lt.mp hhigh))

theorem accepted_of_timewrite {size length : ℕ} {buffer : ℕ → UInt8} {tm : Tm}
    (h : parseTimewrite size buffer length = .setRtc tm) : tm.Accepted := by
  have hset : ∃ time, setTime time = .setRtc tm := by
    unfold parseTimewrite at h
    dsimp only at h
    split at h
    · split at h
      · cases h
      · split at h
        · cases h
        · exact ⟨_, h⟩
    · split at h
      · split at h
        · cases h
        · exact ⟨_, h⟩
      · split at h
        · split at h
          · cases h
          · exact ⟨_, h⟩
        · split at h
          · split at h
            · cases h
            · exact ⟨_, h⟩
          · cases h
  obtain ⟨time, htime⟩ := hset
  exact accepted_of_setTime htime

/-! ### What a clock gives back -/

variable {s : Rtc} {tm : Tm} {chip : DsChip} {regs : ℕ → UInt8}

/-- A statement about a byte below a bound, from its cases. -/
theorem of_byte_lt {P : UInt8 → Prop} {bound : ℕ} (h : ∀ k < bound, P (UInt8.ofNat k)) {value : UInt8}
    (hlt : value.toNat < bound) : P value := by
  have hvalue := h value.toNat hlt
  rwa [UInt8.ofNat_toNat] at hvalue

theorem DsChip.registers_write {reg n i : ℕ} {data : ℕ → UInt8} (hi : i < 17) :
    (chip.write reg n data).registers i = Memory.write chip.registers reg n data i :=
  if_neg fun h => by omega

theorem registers_dsrtcSet (tm : Tm) (hds : s.ds = some chip) (hstate : s.state ≠ .notFound) :
    ∃ chip', (dsrtcSet s tm).ds = some chip' ∧ (dsrtcSet s tm).state = .ok ∧
      ∀ i < 7, chip'.registers i = (dsrtcBytes tm).getD i 0 := by
  rw [dsrtcSet, if_neg hstate, hds]
  refine ⟨_, rfl, rfl, fun i hi => ?_⟩
  cases s.dsType
  · rw [DsChip.registers_write (by omega), Memory.write_outside (by omega), DsChip.registers_write (by omega),
      Memory.write_zero hi]
  · rw [DsChip.registers_write (by omega), Memory.write_outside (by omega), DsChip.registers_write (by omega),
      Memory.write_outside (by omega), DsChip.registers_write (by omega), Memory.write_zero hi]

theorem bcd_second : ∀ k < 60, bcd2int (int2bcd (UInt8.ofNat k) &&& 0x7f) = UInt8.ofNat k := by
  decide +kernel

theorem bcd_month : ∀ k < 12, bcd2int ((int2bcd (UInt8.ofNat k + 1) ||| 0) &&& 0x7f) - 1 = UInt8.ofNat k ∧
    (int2bcd (UInt8.ofNat k + 1) ||| 0) &&& 0x80 = 0 := by
  decide +kernel

theorem bcd_wday : ∀ k < 7, bcd2int (int2bcd (UInt8.ofNat k + 1)) - 1 = UInt8.ofNat k := by
  decide +kernel

theorem bcd_lt {value : UInt8} (h : value.toNat < 100) : bcd2int (int2bcd value) = value :=
  Tm.Settable.bcd_back (UInt8.lt_iff_toNat_lt.mpr h)

/-- A DS1307 or DS3231 keeps the two last digits of the year, and gives back one from 2000 to 2099. -/
theorem dsrtcRead_dsrtcSet (hds : s.ds = some chip) (hstate : s.state ≠ .notFound) (h : tm.Accepted) :
    dsrtcRead (dsrtcSet s tm) = { tm with year := tm.year % 100 + 100 } := by
  obtain ⟨chip', hchip, hok, hregs⟩ := registers_dsrtcSet tm hds hstate
  have h2100 : ¬2100 ≤ tm.year.toNat := by
    have := tm.year.toNat_lt
    omega
  have hyear : (tm.year % 100).toNat < 100 := by
    rw [UInt8.toNat_mod]
    exact Nat.mod_lt _ (by decide)
  obtain ⟨hmon, hcentury⟩ := of_byte_lt (P := fun v => bcd2int ((int2bcd (v + 1) ||| 0) &&& 0x7f) - 1 = v ∧
    (int2bcd (v + 1) ||| 0) &&& 0x80 = 0) bcd_month h.mon
  have hbytes : dsrtcBytes tm = [int2bcd tm.sec, int2bcd tm.min, int2bcd tm.hour, int2bcd (tm.wday + 1),
      int2bcd tm.mday, int2bcd (tm.mon + 1) ||| 0, int2bcd (tm.year % 100)] := by
    rw [dsrtcBytes, if_neg h2100]
  rw [hbytes] at hregs
  have h0 : chip'.registers 0 = int2bcd tm.sec := hregs 0 (by decide)
  have h1 : chip'.registers 1 = int2bcd tm.min := hregs 1 (by decide)
  have h2 : chip'.registers 2 = int2bcd tm.hour := hregs 2 (by decide)
  have h3 : chip'.registers 3 = int2bcd (tm.wday + 1) := hregs 3 (by decide)
  have h4 : chip'.registers 4 = int2bcd tm.mday := hregs 4 (by decide)
  have h5 : chip'.registers 5 = int2bcd (tm.mon + 1) ||| 0 := hregs 5 (by decide)
  have h6 : chip'.registers 6 = int2bcd (tm.year % 100) := hregs 6 (by decide)
  rw [dsrtcRead, if_neg (not_not.mpr hok), hchip]
  dsimp only
  rw [h0, h1, h2, h3, h4, h5, h6, hmon, hcentury, if_neg (not_not.mpr rfl), bcd_lt hyear, UInt8.add_zero]
  ext1
  · exact of_byte_lt (P := fun v => bcd2int (int2bcd v &&& 0x7f) = v) bcd_second h.sec
  · exact bcd_lt (h.min.trans (by decide))
  · exact bcd_lt (h.hour.trans (by decide))
  · exact bcd_lt (h.mday.trans (by decide))
  · rfl
  · rfl
  · exact of_byte_lt (P := fun v => bcd2int (int2bcd (v + 1)) - 1 = v) bcd_wday h.wday

theorem dsrtcRead_dsrtcSet_iff (hds : s.ds = some chip) (hstate : s.state ≠ .notFound) (h : tm.Accepted) :
    dsrtcRead (dsrtcSet s tm) = tm ↔ 100 ≤ tm.year.toNat ∧ tm.year.toNat ≤ 199 := by
  have hyear : (tm.year % 100 + 100).toNat = tm.year.toNat % 100 + 100 := by
    rw [UInt8.toNat_add, UInt8.toNat_mod]
    simp only [UInt8.reduceToNat]
    omega
  rw [dsrtcRead_dsrtcSet hds hstate h]
  constructor
  · intro heq
    have hback := congrArg (fun t : Tm => t.year.toNat) heq
    simp only [hyear] at hback
    omega
  · intro hrange
    have hback : tm.year % 100 + 100 = tm.year := by
      rw [← UInt8.toNat_inj, hyear]
      omega
    rw [hback]

theorem word_yearBytes (year : UInt16) :
    word ((yearBytes year).getD 0 0) ((yearBytes year).getD 1 0) = year := by
  have hlt := year.toNat_lt
  have hlow : (yearBytes year).getD 0 0 = year.toUInt8 := rfl
  have hhigh : (yearBytes year).getD 1 0 = (year / 256).toUInt8 := rfl
  rw [hlow, hhigh, word, ← UInt16.toNat_inj]
  simp only [UInt16.toNat_add, UInt16.toNat_mul, UInt8.toNat_toUInt16, UInt16.toNat_toUInt8, UInt16.toNat_div,
    UInt16.reduceToNat]
  omega

theorem registers_pcf8583Set (tm : Tm) (hpcf : s.pcf = some regs) (hstate : s.state ≠ .notFound) :
    ∃ regs', (pcf8583Set s tm).pcf = some regs' ∧ (pcf8583Set s tm).state = .ok ∧
      (∀ i < 5, regs' (2 + i) = (pcf8583Bytes tm).getD i 0) ∧
      ∀ i < 4, regs' (16 + i) = (yearBytes (tm.year.toUInt16 + 1900)).getD i 0 := by
  rw [pcf8583Set, if_neg hstate, hpcf]
  refine ⟨_, rfl, rfl, fun i hi => ?_, fun i hi => ?_⟩ <;> dsimp only
  · rw [Function.update_of_ne (by omega), Memory.write_outside (by omega), Memory.write_inside hi]
  · rw [Function.update_of_ne (by omega), Memory.write_inside hi]

/-- The day and two bits of the year in one byte, the month and the day of the week in another. -/
theorem packed_day : ∀ r < 4, ∀ d < 32,
    bcd2int ((int2bcd (UInt8.ofNat d) ||| (UInt8.ofNat r <<< 6)) &&& 0x3f) = UInt8.ofNat d ∧
      (int2bcd (UInt8.ofNat d) ||| (UInt8.ofNat r <<< 6)) >>> 6 = UInt8.ofNat r := by
  decide +kernel

theorem packed_month : ∀ w < 7, ∀ m < 12,
    bcd2int ((int2bcd (UInt8.ofNat m + 1) ||| (UInt8.ofNat w <<< 5)) &&& 0x1f) - 1 = UInt8.ofNat m ∧
      bcd2int ((int2bcd (UInt8.ofNat m + 1) ||| (UInt8.ofNat w <<< 5)) >>> 5) = UInt8.ofNat w := by
  decide +kernel

theorem year_bits : ∀ k < 256, ((UInt8.ofNat k).toUInt16 + 1900) &&& 3 = (UInt8.ofNat k &&& 3).toUInt16 ∧
    (UInt8.ofNat k &&& 3).toNat < 4 := by
  decide +kernel

/-- A PCF8583 gives back the time it was set to. -/
theorem pcf8583Read_pcf8583Set (hpcf : s.pcf = some regs) (hstate : s.state ≠ .notFound) (h : tm.Accepted) :
    (pcf8583Read (pcf8583Set s tm)).1 = tm := by
  obtain ⟨regs', hregs, hok, htime, hyear⟩ := registers_pcf8583Set tm hpcf hstate
  have h2 : regs' 2 = int2bcd tm.sec := htime 0 (by decide)
  have h3 : regs' 3 = int2bcd tm.min := htime 1 (by decide)
  have h4 : regs' 4 = int2bcd tm.hour := htime 2 (by decide)
  have h5 : regs' 5 = int2bcd tm.mday ||| ((tm.year &&& 3) <<< 6) := htime 3 (by decide)
  have h6 : regs' 6 = int2bcd (tm.mon + 1) ||| (tm.wday <<< 5) := htime 4 (by decide)
  have h16 := hyear 0 (by decide)
  have h17 := hyear 1 (by decide)
  obtain ⟨hbits, hlow⟩ := of_byte_lt (P := fun v => (v.toUInt16 + 1900) &&& 3 = (v &&& 3).toUInt16 ∧
    (v &&& 3).toNat < 4) year_bits tm.year.toNat_lt
  obtain ⟨hday, hrest⟩ := of_byte_lt (P := fun r => bcd2int ((int2bcd tm.mday ||| (r <<< 6)) &&& 0x3f) = tm.mday ∧
    (int2bcd tm.mday ||| (r <<< 6)) >>> 6 = r)
    (fun r hr => of_byte_lt (P := fun d => bcd2int ((int2bcd d ||| (UInt8.ofNat r <<< 6)) &&& 0x3f) = d ∧
      (int2bcd d ||| (UInt8.ofNat r <<< 6)) >>> 6 = UInt8.ofNat r) (packed_day r hr) h.mday) hlow
  obtain ⟨hmon, hwday⟩ := of_byte_lt (P := fun w =>
    bcd2int ((int2bcd (tm.mon + 1) ||| (w <<< 5)) &&& 0x1f) - 1 = tm.mon ∧
      bcd2int ((int2bcd (tm.mon + 1) ||| (w <<< 5)) >>> 5) = w)
    (fun w hw => of_byte_lt (P := fun m =>
      bcd2int ((int2bcd (m + 1) ||| (UInt8.ofNat w <<< 5)) &&& 0x1f) - 1 = m ∧
        bcd2int ((int2bcd (m + 1) ||| (UInt8.ofNat w <<< 5)) >>> 5) = UInt8.ofNat w) (packed_month w hw) h.mon)
    h.wday
  rw [pcf8583Read, if_neg (not_not.mpr hok), hregs]
  dsimp only
  rw [show (16 : ℕ) = 16 + 0 from rfl, show (17 : ℕ) = 16 + 1 from rfl, h16, h17, word_yearBytes, h2, h3, h4, h5,
    h6, hday, hrest, hmon, hwday, rollOver, if_neg (not_not.mpr hbits)]
  ext1
  · exact bcd_lt (h.sec.trans (by decide))
  · exact bcd_lt (h.min.trans (by decide))
  · exact bcd_lt (h.hour.trans (by decide))
  · rfl
  · rfl
  · simp only
    rw [UInt16.add_sub_cancel]
    exact UInt8.toUInt8_toUInt16 _
  · rfl

theorem lpcrtcRead_lpcrtcSet (s : Rtc) (tm : Tm) : lpcrtcRead (lpcrtcSet s tm) = tm := by
  have hok : (lpcrtcSet s tm).state = .ok := rfl
  rw [lpcrtcRead, if_neg (not_not.mpr hok)]
  simp [lpcrtcSet]

/-! ### The clock that `rtc_init` finds -/

variable {e : Enabled} {ds : Option DsChip} {pcf : Option (ℕ → UInt8)} {lpc : LpcRtc}

theorem dsrtcInit_some (hds : s.ds = some chip) : ∃ chip', (dsrtcInit s).ds = some chip' ∧
    (dsrtcInit s).state ≠ .notFound ∧ (dsrtcInit s).current = s.current := by
  have hne : ∀ stopped : UInt8, (if stopped ≠ 0 then RtcState.invalid else .ok) ≠ .notFound := by
    intro stopped
    split
    · exact RtcState.noConfusion
    · exact RtcState.noConfusion
  rw [dsrtcInit, hds]
  exact ⟨_, rfl, hne _, rfl⟩

/-- Reading the clock takes no chip away. -/
theorem readRtc_kept (e : Enabled) (hpcf : s.pcf = some regs) (time : Tm) :
    (∃ regs', (readRtc e s time).2.pcf = some regs') ∧ (readRtc e s time).2.state = s.state ∧
      (readRtc e s time).2.current = s.current := by
  have hread : (∃ regs', (pcf8583Read s).2.pcf = some regs') ∧ (pcf8583Read s).2.state = s.state ∧
      (pcf8583Read s).2.current = s.current := by
    rw [pcf8583Read]
    split
    · exact ⟨⟨regs, hpcf⟩, rfl, rfl⟩
    · rw [hpcf]
      dsimp only
      split
      · exact ⟨⟨_, rfl⟩, rfl, rfl⟩
      · exact ⟨⟨regs, hpcf⟩, rfl, rfl⟩
  rw [readRtc]
  split
  · exact ⟨⟨regs, hpcf⟩, rfl, rfl⟩
  · exact hread
  · exact ⟨⟨regs, hpcf⟩, rfl, rfl⟩
  · exact ⟨⟨regs, hpcf⟩, rfl, rfl⟩
  · exact ⟨⟨regs, hpcf⟩, rfl, rfl⟩

theorem pcf8583Init_some (e : Enabled) (hpcf : s.pcf = some regs) : ∃ regs',
    (pcf8583Init e s).pcf = some regs' ∧ (pcf8583Init e s).state ≠ .notFound ∧
      (pcf8583Init e s).current = s.current := by
  rw [pcf8583Init, hpcf]
  dsimp only
  split
  · obtain ⟨⟨regs', hregs⟩, hstate, hcurrent⟩ := readRtc_kept e
      (s := { s with pcf := some (Function.update regs 0 0), state := .ok }) rfl rtcDefaultDate
    exact ⟨regs', hregs, hstate ▸ RtcState.noConfusion, hcurrent⟩
  · exact ⟨_, rfl, RtcState.noConfusion, rfl⟩

theorem lpcrtcInit_found (s : Rtc) : (lpcrtcInit s).state ≠ .notFound := by
  rw [lpcrtcInit]
  dsimp only
  split
  · exact RtcState.noConfusion
  · exact RtcState.noConfusion

/-- The clock in use after `rtc_init`: the first one of those that are enabled and there. -/
inductive Selected (e : Enabled) (ds : Option DsChip) (pcf : Option (ℕ → UInt8)) (s : Rtc) : Prop
  | dsrtc (chip : DsChip) (hds : (e.dsrtc && ds.isSome) = true) (hdriver : e.driver s.current = .dsrtc)
      (hchip : s.ds = some chip)
  | pcf8583 (regs : ℕ → UInt8) (hds : (e.dsrtc && ds.isSome) = false) (hpcf : (e.pcf8583 && pcf.isSome) = true)
      (hdriver : e.driver s.current = .pcf8583) (hregs : s.pcf = some regs)
  | lpc17xx (hds : (e.dsrtc && ds.isSome) = false) (hpcf : (e.pcf8583 && pcf.isSome) = false)
      (hlpc : e.lpc17xx = true) (hdriver : e.driver s.current = .lpc17xx)
  | software (hds : (e.dsrtc && ds.isSome) = false) (hpcf : (e.pcf8583 && pcf.isSome) = false)
      (hlpc : e.lpc17xx = false) (hdriver : e.driver s.current = if e.mux then .none else .software)

theorem driver_mux {type : RtcType} (hmux : e.mux = true) (htype : e.has type = true) : e.driver type = type := by
  rw [Enabled.driver, if_pos hmux, if_pos htype]

/-- The multiplexer tries one clock after the other. -/
theorem selected_mux (hmux : e.mux = true) (h : (rtcInit e (boot ds pcf lpc)).state ≠ .notFound) :
    Selected e ds pcf (rtcInit e (boot ds pcf lpc)) := by
  rw [rtcInit, if_pos hmux] at h ⊢
  dsimp only at h ⊢
  cases hds : e.dsrtc && ds.isSome with
  | true =>
    obtain ⟨hdsrtc, hsome⟩ := Bool.and_eq_true_iff.mp hds
    obtain ⟨chip, rfl⟩ := Option.isSome_iff_exists.mp hsome
    obtain ⟨chip', hchip, hstate, -⟩ := dsrtcInit_some (s := boot (some chip) pcf lpc) rfl
    rw [if_pos hdsrtc, if_pos ⟨hdsrtc, hstate⟩]
    exact .dsrtc chip' hds (driver_mux hmux hdsrtc) hchip
  | false =>
    have hinit : (if e.dsrtc = true then dsrtcInit (boot ds pcf lpc) else boot ds pcf lpc) = boot ds pcf lpc := by
      cases ds with
      | none => split <;> rfl
      | some chip =>
        rw [Option.isSome_some, Bool.and_true] at hds
        rw [if_neg (by simp [hds])]
    have hboot : ¬(e.dsrtc = true ∧ (boot ds pcf lpc).state ≠ .notFound) := fun h => h.2 rfl
    rw [hinit, if_neg hboot] at h ⊢
    cases hpcf : e.pcf8583 && pcf.isSome with
    | true =>
      obtain ⟨hpcf8583, hsome⟩ := Bool.and_eq_true_iff.mp hpcf
      obtain ⟨regs, rfl⟩ := Option.isSome_iff_exists.mp hsome
      obtain ⟨regs', hregs, hstate, -⟩ := pcf8583Init_some e (s := boot ds (some regs) lpc) rfl
      rw [if_pos hpcf8583, if_pos ⟨hpcf8583, hstate⟩]
      exact .pcf8583 regs' hds hpcf (driver_mux hmux hpcf8583) hregs
    | false =>
      have hinit : (if e.pcf8583 = true then pcf8583Init e (boot ds pcf lpc) else boot ds pcf lpc) =
          boot ds pcf lpc := by
        cases pcf with
        | none => split <;> rfl
        | some regs =>
          rw [Option.isSome_some, Bool.and_true] at hpcf
          rw [if_neg (by simp [hpcf])]
      have hboot : ¬(e.pcf8583 = true ∧ (boot ds pcf lpc).state ≠ .notFound) := fun h => h.2 rfl
      rw [hinit, if_neg hboot] at h ⊢
      cases hlpc : e.lpc17xx with
      | true =>
        rw [if_pos rfl, if_pos ⟨rfl, lpcrtcInit_found _⟩]
        exact .lpc17xx hds hpcf hlpc (driver_mux hmux hlpc)
      | false =>
        rw [hlpc, if_neg Bool.false_ne_true, if_neg fun h => Bool.false_ne_true h.1] at h
        rw [if_neg Bool.false_ne_true, if_neg fun h => Bool.false_ne_true h.1]
        cases hsoftware : e.software with
        | true =>
          rw [if_pos rfl]
          refine .software hds hpcf hlpc ?_
          rw [if_pos hmux, Enabled.driver, if_pos hmux]
          rfl
        | false =>
          rw [hsoftware, if_neg Bool.false_ne_true] at h
          exact absurd rfl h

/-- Without the multiplexer there is one clock only. -/
theorem selected_single (hmux : e.mux = false) (h : (rtcInit e (boot ds pcf lpc)).state ≠ .notFound) :
    Selected e ds pcf (rtcInit e (boot ds pcf lpc)) := by
  obtain ⟨_ | _, _ | _, _ | _, _ | _⟩ := e
  all_goals first | exact absurd hmux (by decide) | skip
  · exact absurd rfl h
  · exact .software rfl rfl rfl rfl
  · exact .lpc17xx rfl rfl rfl rfl
  · cases pcf with
    | none => exact absurd rfl h
    | some regs =>
      obtain ⟨regs', hregs, -, -⟩ := pcf8583Init_some ⟨false, true, false, false⟩
        (s := boot ds (some regs) lpc) rfl
      exact .pcf8583 regs' rfl rfl rfl hregs
  · cases ds with
    | none => exact absurd rfl h
    | some chip =>
      obtain ⟨chip', hchip, -, -⟩ := dsrtcInit_some (s := boot (some chip) pcf lpc) rfl
      exact .dsrtc chip' rfl rfl hchip

/-- The times that the clock in use gives back. -/
def Keeps (e : Enabled) (ds : Option DsChip) (pcf : Option (ℕ → UInt8)) (tm : Tm) : Prop :=
  if e.dsrtc && ds.isSome then 100 ≤ tm.year.toNat ∧ tm.year.toNat ≤ 199
  else if e.pcf8583 && pcf.isSome then True
  else if e.lpc17xx then True
  else e.mux = false ∧ tm.Valid ∧ tm.Regular ∧ tm.seconds < 2 ^ 32

/-- A time that `T-W` sets is read back from the clock that was found, whatever was in the variable. -/
theorem readRtc_setRtc_iff {size length : ℕ} {buffer : ℕ → UInt8}
    (hfound : (rtcInit e (boot ds pcf lpc)).state ≠ .notFound)
    (haccept : parseTimewrite size buffer length = .setRtc tm) :
    (∀ time, (readRtc e (setRtc e (rtcInit e (boot ds pcf lpc)) tm) time).1 = some tm) ↔
      Keeps e ds pcf tm := by
  have h := accepted_of_timewrite haccept
  have hselected : Selected e ds pcf (rtcInit e (boot ds pcf lpc)) := by
    cases hmux : e.mux with
    | true => exact selected_mux hmux hfound
    | false => exact selected_single hmux hfound
  generalize rtcInit e (boot ds pcf lpc) = s at hfound hselected ⊢
  cases hselected with
  | dsrtc chip hds hdriver hchip =>
    have hcurrent : (dsrtcSet s tm).current = s.current := by
      rw [dsrtcSet, if_neg hfound]
    rw [Keeps, if_pos hds, ← dsrtcRead_dsrtcSet_iff hchip hfound h]
    simp only [setRtc, readRtc, hdriver, hcurrent, Option.some.injEq]
    exact ⟨fun hall => hall tm, fun hback _ => hback⟩
  | pcf8583 regs hds hpcf hdriver hregs =>
    have hcurrent : (pcf8583Set s tm).current = s.current := by
      rw [pcf8583Set, if_neg hfound]
    rw [Keeps, hds, if_neg Bool.false_ne_true, if_pos hpcf]
    simp only [setRtc, readRtc, hdriver, hcurrent, pcf8583Read_pcf8583Set hregs hfound h, implies_true]
  | lpc17xx hds hpcf hlpc hdriver =>
    have hcurrent : (lpcrtcSet s tm).current = s.current := rfl
    rw [Keeps, hds, hpcf, if_neg Bool.false_ne_true, if_neg Bool.false_ne_true, if_pos hlpc]
    simp only [setRtc, readRtc, hdriver, hcurrent, lpcrtcRead_lpcrtcSet, implies_true]
  | software hds hpcf hlpc hdriver =>
    have hlow : 70 ≤ tm.year.toNat := Nat.le_trans (by decide) h.year
    have hcurrent : (softrtcSet s tm).current = s.current := rfl
    rw [Keeps, hds, hpcf, hlpc, if_neg Bool.false_ne_true, if_neg Bool.false_ne_true, if_neg Bool.false_ne_true]
    cases hmux : e.mux with
    | true =>
      -- Nothing is set, and nothing is read.
      rw [hmux, if_pos rfl] at hdriver
      simp only [setRtc, readRtc, hdriver, Option.some.injEq]
      refine iff_of_false (fun hall => ?_) fun hkeeps => Bool.noConfusion hkeeps.1
      have hzero : 0 = tm.year := congrArg Tm.year (hall { tm with year := 0 })
      have hyear := h.year
      rw [← hzero] at hyear
      exact absurd hyear (by decide)
    | false =>
      rw [hmux, if_neg Bool.false_ne_true] at hdriver
      simp only [setRtc, readRtc, hdriver, softrtcRead, softrtcSet, true_and]
      rw [← Tm.gmtime_mktime_iff_valid hlow]
      exact ⟨fun hall => hall tm, fun hback _ => hback⟩

/-- A command `T-WD` for 2 August 2008, 03:18:45, and one for 31 December 1999. -/
def august2008Command (i : ℕ) : UInt8 := [84, 45, 87, 68, 6, 108, 8, 2, 3, 18, 45, 0].getD i 0

def december1999Command (i : ℕ) : UInt8 := [84, 45, 87, 68, 5, 99, 12, 31, 23, 59, 59, 0].getD i 0

/-- Both clocks are enabled, and a DS3231 is there. -/
def petSd : Enabled := ⟨true, true, false, false⟩

def ds3231 : DsChip := ⟨.ds3231, fun _ => 0⟩

def lpcReset : LpcRtc := ⟨0, 0, 0, 0, 0, 0, 0, 0, 0, 0⟩

theorem petSd_found : (rtcInit petSd (boot (some ds3231) none lpcReset)).state ≠ .notFound := by
  decide

theorem readRtc_august2008 :
    (readRtc petSd (setRtc petSd (rtcInit petSd (boot (some ds3231) none lpcReset)) august2008)
      rtcDefaultDate).1 = some august2008 := by
  have hkeeps : Keeps petSd (some ds3231) none august2008 := by
    have hds : (petSd.dsrtc && (some ds3231).isSome) = true := rfl
    rw [Keeps, if_pos hds]
    decide
  exact (readRtc_setRtc_iff petSd_found
    (by decide : parseTimewrite 120 august2008Command 12 = _)).mpr hkeeps rtcDefaultDate

/-- The year 1999 comes back as 2099. -/
theorem not_readRtc_setRtc : ¬∀ (e : Enabled) (ds : Option DsChip) (pcf : Option (ℕ → UInt8)) (lpc : LpcRtc)
    (tm : Tm) (size length : ℕ) (buffer : ℕ → UInt8),
    (rtcInit e (boot ds pcf lpc)).state ≠ .notFound → parseTimewrite size buffer length = .setRtc tm →
      ∀ time, (readRtc e (setRtc e (rtcInit e (boot ds pcf lpc)) tm) time).1 = some tm := by
  intro h
  have hback := h petSd (some ds3231) none lpcReset ⟨59, 59, 23, 31, 11, 99, 5⟩ 120 12 december1999Command
    petSd_found (by decide) rtcDefaultDate
  revert hback
  decide +kernel

end NoDiskEmu.Clock
