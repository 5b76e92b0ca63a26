import NoDiskEmu.Dos.Numbers
import Mathlib.Data.List.GetD

/-! The lines of a directory listing: what `createentry` writes, and where a line has a zero. -/

namespace NoDiskEmu.Dos

open Library

/-- The spaces in front of a name, by the width of the number of blocks. -/
def fillers (blocksize : UInt16) : ℕ :=
  (if blocksize < 1000 then 1 else 0) + (if blocksize < 100 then 1 else 0) + if blocksize < 10 then 1 else 0

theorem fillers_le (blocksize : UInt16) : fillers blocksize ≤ 3 := by
  rw [fillers]
  split <;> split <;> split <;> omega

/-- Where the name of a line starts. -/
def nameStart (dent : Dirent) : ℕ := fillers dent.blocksize + 5

theorem nameStart_bounds (dent : Dirent) : 5 ≤ nameStart dent ∧ nameStart dent ≤ 8 := by
  have hle := fillers_le dent.blocksize
  rw [nameStart]
  omega

/-- The three characters of the type. -/
def Dirent.type (dent : Dirent) (i : ℕ) : UInt8 :=
  filetypes.getD (3 * (dent.typeflags &&& 15).toNat + i) 0

/-- A line up to the quote in front of the name. -/
def lineHead (dent : Dirent) (format : DirFormat) (data : ℕ → UInt8) : Pen :=
  let i := format.lastused
  let p : Pen := ⟨Function.update (Memory.write data 0 i fun _ => 32) i 0, 0⟩
  let p := (p.put (if dent.remainder ≠ 255 then dent.remainder + 2 else 1)).put 1
  let p := (p.put dent.blocksize.toUInt8).put (dent.blocksize >>> 8).toUInt8
  (p.skip (fillers dent.blocksize)).put 34

/-- A line up to the end of its name. -/
def lineName (dent : Dirent) (format : DirFormat) (data : ℕ → UInt8) : Pen :=
  let p := lineHead dent format data
  let p := { p with data := Memory.write p.data p.pos (Fat.CBM_NAME_LENGTH + 1) (nameByte dent.name) }
  p.skip (Fat.CBM_NAME_LENGTH + 1)

/-- A line up to its date. -/
def lineBody (dent : Dirent) (format : DirFormat) (data : ℕ → UInt8) : Pen :=
  let p := lineName dent format data
  let p := if dent.typeflags &&& FLAG_SPLAT ≠ 0 then p.poke 0 42 else p
  let p := { p with
    data := Memory.write p.data (p.pos + 1) (if format = DirFormat.cmdShort then 1 else 3) dent.type }
  if dent.typeflags &&& FLAG_RO ≠ 0 then p.poke 4 60 else p

/-- The end of a line. -/
def Pen.lineDate (iec : Bool) (dent : Dirent) (format : DirFormat) (p : Pen) : Pen :=
  match format with
  | .cmdLong => p.longDate dent.date
  | .cmdShort => p.shortDate iec dent.date
  | .cbm => if dent.typeflags &&& FLAG_HIDDEN ≠ 0 then p.poke 5 72 else p

theorem createentry_eq (iec : Bool) (dent : Dirent) (format : DirFormat) (c : Cursor) :
    createentry iec dent format c =
      { c with
        data := ((lineBody dent format c.data).lineDate iec dent format).data
        lastused := format.lastused } := rfl

/-- A line under way: nothing behind its end has changed, the name is in its place, and elsewhere there
is no zero in front of the end. -/
structure Line (dent : Dirent) (last : ℕ) (before data : ℕ → UInt8) : Prop where
  outside : ∀ j, last < j → data j = before j
  terminator : data last = 0
  quote : data (nameStart dent - 1) = 34
  name : ∀ i < 17, data (nameStart dent + i) = nameByte dent.name i
  others : ∀ j, 4 ≤ j → j < last → j < nameStart dent ∨ nameStart dent + 17 ≤ j → data j ≠ 0

namespace Line

variable {dent : Dirent} {last : ℕ} {before data : ℕ → UInt8}

/-- Bytes behind the name. -/
theorem write (h : Line dent last before data) {off n : ℕ} {block : ℕ → UInt8}
    (hlow : nameStart dent + 17 ≤ off) (hhigh : off + n ≤ last) (hblock : ∀ i < n, block i ≠ 0) :
    Line dent last before (Memory.write data off n block) where
  outside k hk := by
    rw [Memory.write_outside (by omega)]
    exact h.outside k hk
  terminator := by
    rw [Memory.write_outside (by omega)]
    exact h.terminator
  quote := by
    rw [Memory.write_outside (by omega)]
    exact h.quote
  name i hi := by
    rw [Memory.write_outside (by omega)]
    exact h.name i hi
  others k hk hlast hname := by
    by_cases hin : off ≤ k ∧ k < off + n
    · rw [Memory.write, if_pos hin]
      exact hblock _ (by omega)
    · rw [Memory.write, if_neg hin]
      exact h.others k hk hlast hname

theorem update (h : Line dent last before data) {j : ℕ} {x : UInt8} (hlow : nameStart dent + 17 ≤ j)
    (hhigh : j < last) (hx : x ≠ 0) : Line dent last before (Function.update data j x) := by
  have hwrite : Memory.write data j 1 (fun _ => x) = Function.update data j x := Memory.write_one
  rw [← hwrite]
  exact h.write hlow hhigh fun _ _ => hx

/-- `puts` behind the name. -/
theorem puts {p : Pen} (h : Line dent last before p.data) {xs : List UInt8}
    (hlow : nameStart dent + 17 ≤ p.pos) (hhigh : p.pos + xs.length ≤ last) (hxs : ∀ x ∈ xs, x ≠ 0) :
    Line dent last before (p.puts xs).data := by
  rw [Pen.data_puts]
  refine h.write hlow hhigh fun i hi => ?_
  rw [List.getD_eq_getElem _ _ hi]
  exact hxs _ (List.getElem_mem hi)

/-- The loop at the end of a line fills it. -/
theorem fillOnes {p : Pen} (h : Line dent last before p.data) (hlow : nameStart dent + 17 ≤ p.pos)
    (hhigh : p.pos ≤ last) (fuel : ℕ) : Line dent last before (Pen.fillOnes fuel p).data := by
  induction fuel generalizing p with
  | zero => exact h
  | succ fuel ih =>
    rw [Pen.fillOnes]
    split
    · exact h
    · next hne =>
      have hlt : p.pos < last := by
        refine Nat.lt_of_le_of_ne hhigh fun heq => hne ?_
        rw [heq]
        exact h.terminator
      have hput : (p.put 1).data = Function.update p.data p.pos 1 := rfl
      have hpos : (p.put 1).pos = p.pos + 1 := rfl
      refine ih ?_ (by omega) (by omega)
      rw [hput]
      exact h.update hlow hlt (by decide)

end Line

theorem lineHead_pos (dent : Dirent) (format : DirFormat) (data : ℕ → UInt8) :
    (lineHead dent format data).pos = nameStart dent := by
  rw [nameStart, Nat.add_comm]
  show 4 + fillers dent.blocksize + 1 = _
  omega

/-- The bytes of the head: a quote, and spaces up to the end of the line. -/
theorem lineHead_data (dent : Dirent) (format : DirFormat) (data : ℕ → UInt8) {j : ℕ} (hj : 4 ≤ j) :
    (lineHead dent format data).data j =
      if j = nameStart dent - 1 then 34
      else if j < format.lastused then 32
      else if j = format.lastused then 0
      else data j := by
  have hquote : nameStart dent - 1 = 4 + fillers dent.blocksize := by
    rw [nameStart]
    omega
  show Function.update _ (4 + fillers dent.blocksize) 34 j = _
  rw [hquote]
  by_cases hj' : j = 4 + fillers dent.blocksize
  · rw [if_pos hj', hj', Function.update_self]
  rw [if_neg hj', Function.update_of_ne hj']
  simp only [Pen.put, Pen.skip]
  rw [Function.update_of_ne (by omega), Function.update_of_ne (by omega),
    Function.update_of_ne (by omega), Function.update_of_ne (by omega)]
  by_cases hlast : j = format.lastused
  · rw [if_neg (by omega), if_pos hlast, hlast, Function.update_self]
  rw [Function.update_of_ne hlast, if_neg hlast]
  by_cases hlt : j < format.lastused
  · rw [if_pos hlt, Memory.write_zero hlt]
  · rw [if_neg hlt, Memory.write_outside (by omega)]

theorem type_ne_zero {dent : Dirent} (htype : dent.typeflags &&& 15 < 12) {i : ℕ} (hi : i < 3) :
    dent.type i ≠ 0 := by
  have hall : ∀ k < 36, filetypes.getD k 0 ≠ 0 := by decide
  have hlt : (dent.typeflags &&& 15).toNat < 12 := htype
  exact hall _ (by omega)

/-- The line up to its name, and the spaces behind it. -/
theorem lineName_line (dent : Dirent) (format : DirFormat) (data : ℕ → UInt8) :
    Line dent format.lastused data (lineName dent format data).data ∧
      (lineName dent format data).pos = nameStart dent + 17 ∧
      ∀ j, nameStart dent + 17 ≤ j → j < format.lastused → (lineName dent format data).data j = 32 := by
  have hstart := nameStart_bounds dent
  have hlast := (Listing.lastused_le format).1
  have hpos := lineHead_pos dent format data
  have hdata := fun j (hj : 4 ≤ j) => lineHead_data dent format data hj
  have hname : (lineName dent format data).data =
      Memory.write (lineHead dent format data).data (nameStart dent) 17 (nameByte dent.name) := by
    rw [← hpos]
    rfl
  have hout : ∀ j, 4 ≤ j → j < nameStart dent ∨ nameStart dent + 17 ≤ j →
      (lineName dent format data).data j = (lineHead dent format data).data j := by
    intro j _ hj
    rw [hname, Memory.write_outside hj]
  refine ⟨⟨fun j hj => ?_, ?_, ?_, fun i hi => ?_, fun j hj hlt hj' => ?_⟩, congrArg (· + 17) hpos,
    fun j hj hlt => ?_⟩
  · rw [hout j (by omega) (by omega), hdata j (by omega), if_neg (by omega), if_neg (by omega),
      if_neg (by omega)]
  · rw [hout _ (by omega) (by omega), hdata _ (by omega), if_neg (by omega), if_neg (by omega),
      if_pos rfl]
  · rw [hout _ (by omega) (by omega), hdata _ (by omega), if_pos rfl]
  · rw [hname, Memory.write_inside hi]
  · rw [hout j hj hj', hdata j hj, if_pos hlt]
    split <;> decide
  · rw [hout j (by omega) (by omega), hdata j (by omega), if_neg (by omega), if_pos hlt]

/-- A line under way behind its name: only spaces are left from the date on. -/
structure BeforeDate (dent : Dirent) (last : ℕ) (before : ℕ → UInt8) (p : Pen) : Prop where
  line : Line dent last before p.data
  pos : p.pos = nameStart dent + 17
  blank : ∀ j, nameStart dent + 22 ≤ j → j < last → p.data j = 32

namespace BeforeDate

variable {dent : Dirent} {last : ℕ} {before : ℕ → UInt8} {p : Pen}

/-- Bytes in front of the date. -/
theorem write (h : BeforeDate dent last before p) (hlast : 31 ≤ last) {i n : ℕ} {f : ℕ → UInt8}
    (hin : i + n ≤ 5) (hblock : ∀ k < n, f k ≠ 0) :
    BeforeDate dent last before { p with data := Memory.write p.data (p.pos + i) n f } := by
  have hstart := nameStart_bounds dent
  have hpos := h.pos
  refine ⟨h.line.write (by omega) (by omega) hblock, hpos, fun j hj hlt => ?_⟩
  exact (Memory.write_outside (by omega)).trans (h.blank j hj hlt)

theorem poke (h : BeforeDate dent last before p) (hlast : 31 ≤ last) {i : ℕ} (hi : i < 5) {x : UInt8}
    (hx : x ≠ 0) (c : Prop) [Decidable c] :
    BeforeDate dent last before (if c then p.poke i x else p) := by
  split
  · have hwrite := h.write hlast (n := 1) (f := fun _ => x) hi fun _ _ => hx
    rw [Memory.write_one] at hwrite
    exact hwrite
  · exact h

end BeforeDate

theorem lineBody_beforeDate {dent : Dirent} (format : DirFormat) (data : ℕ → UInt8)
    (htype : dent.typeflags &&& 15 < 12) :
    BeforeDate dent format.lastused data (lineBody dent format data) := by
  have hlast := (Listing.lastused_le format).1
  obtain ⟨hline, hpos, hblank⟩ := lineName_line dent format data
  have hname : BeforeDate dent format.lastused data (lineName dent format data) :=
    ⟨hline, hpos, fun j hj => hblank j (by omega)⟩
  have hsplat := hname.poke hlast (i := 0) (by decide) (x := 42) (by decide)
    (dent.typeflags &&& FLAG_SPLAT ≠ 0)
  have htypes := hsplat.write hlast (i := 1) (n := if format = DirFormat.cmdShort then 1 else 3)
    (f := dent.type) (by split <;> decide) fun k hk => type_ne_zero htype (by split at hk <;> omega)
  exact htypes.poke hlast (by decide) (by decide) (dent.typeflags &&& FLAG_RO ≠ 0)

/-- Fields that are written with two digits; of the year only two are written. -/
structure Date.TwoDigits (d : Date) : Prop where
  month : d.month < 100
  day : d.day < 100
  hour : d.hour < 100
  minute : d.minute < 100

/-- The text of a date in the long format. -/
def Date.longText (d : Date) : List UInt8 :=
  twoDigits d.month ++ 47 :: (twoDigits d.day ++ 47 :: (twoDigits (d.year % 100) ++ 32 :: 32 :: 32 ::
    (twoDigits d.hour12 ++ 46 :: (twoDigits d.minute ++ [32, d.letter, 77]))))

/-- The text of a date in the short format. -/
def Date.shortText (iec : Bool) (d : Date) : List UInt8 :=
  twoDigits d.month ++ 47 :: (twoDigits d.day ++ 32 :: (twoDigits d.hour12 ++ 46 ::
    (twoDigits d.minute ++ (List.replicate (if iec then 1 else 0) 32 ++ [d.letter]))))

section Dates

variable {p : Pen} {d : Date} {xs : List UInt8}

theorem Pen.puts_data_outside {j : ℕ} (h : j < p.pos ∨ p.pos + xs.length ≤ j) :
    (p.puts xs).data j = p.data j := by
  rw [data_puts, Memory.write_outside h]

/-- Spaces that are skipped are spaces that are put. -/
theorem Pen.skip_eq_puts {n : ℕ} (h : ∀ j, p.pos ≤ j → j < p.pos + n → p.data j = 32) :
    p.skip n = p.puts (List.replicate n 32) := by
  have hdata : (p.puts (List.replicate n 32)).data = p.data := by
    rw [data_puts, List.length_replicate]
    refine Memory.write_same fun i hi => ?_
    rw [List.getD_eq_getElem _ _ (by rwa [List.length_replicate]), List.getElem_replicate,
      h _ (by omega) (by omega)]
  have hpos : (p.puts (List.replicate n 32)).pos = p.pos + n := by
    rw [pos_puts, List.length_replicate]
  rw [show p.puts (List.replicate n 32) = ⟨(p.puts (List.replicate n 32)).data,
    (p.puts (List.replicate n 32)).pos⟩ from rfl, hdata, hpos]
  rfl

/-- Spaces that are skipped behind other bytes. -/
theorem Pen.puts_skip {k n last : ℕ} (h : ∀ j, p.pos + k ≤ j → j < last → p.data j = 32)
    (hk : k ≤ xs.length) (hlast : p.pos + xs.length + n ≤ last) :
    (p.puts xs).skip n = p.puts (xs ++ List.replicate n 32) := by
  rw [puts_append]
  apply skip_eq_puts
  intro j hj hlt
  rw [pos_puts] at hj hlt
  rw [puts_data_outside (by omega)]
  exact h j (by omega) (by omega)

theorem Pen.puts_put (p : Pen) (xs : List UInt8) (x : UInt8) :
    (p.puts xs).put x = p.puts (xs ++ [x]) := by
  rw [puts_append]
  rfl

theorem Pen.puts_appendnumber {value : UInt8} (h : value < 100) :
    (p.puts xs).appendnumber value = p.puts (xs ++ twoDigits value) := by
  rw [appendnumber_lt h, puts_append]

theorem length_twoDigits (value : UInt8) : (twoDigits value).length = 2 := rfl

theorem Date.hour12_lt (h : d.hour < 100) : d.hour12 < 100 := by
  rw [Date.hour12]
  split
  · next hgt =>
    have hsub : (d.hour - 12).toNat = d.hour.toNat - 12 :=
      UInt8.toNat_sub_of_le _ _ (UInt8.le_of_lt hgt)
    have hlt : d.hour.toNat < 100 := h
    show (d.hour - 12).toNat < 100
    omega
  · exact h

theorem Date.length_longText (d : Date) : d.longText.length = 19 := rfl

/-- The long format is the text of the date. -/
theorem Pen.longDate_eq (last : ℕ) (hd : d.TwoDigits)
    (hblank : ∀ j, p.pos + 7 ≤ j → j < last → p.data j = 32) (hlast : p.pos + 26 ≤ last) :
    p.longDate d = fillOnes 256 ((p.skip 7).puts d.longText) := by
  have hyear : d.year % 100 < 100 := UInt8.mod_lt _ (by decide)
  rw [longDate]
  generalize hq : p.skip 7 = q
  have hqblank : ∀ j, q.pos + 0 ≤ j → j < last → q.data j = 32 := by
    rw [← hq]
    exact hblank
  have hqlast : q.pos + 19 ≤ last := by
    rw [← hq]
    exact hlast
  have htext : d.longText = twoDigits d.month ++ [47] ++ twoDigits d.day ++ [47] ++
      twoDigits (d.year % 100) ++ List.replicate 3 32 ++ twoDigits d.hour12 ++ [46] ++ twoDigits d.minute ++
        List.replicate 1 32 ++ [d.letter] ++ [77] := rfl
  rw [htext, appendnumber_lt hd.month, puts_put, puts_appendnumber hd.day, puts_put,
    puts_appendnumber hyear, puts_skip hqblank, puts_appendnumber (Date.hour12_lt hd.hour), puts_put,
    puts_appendnumber hd.minute, puts_skip hqblank, puts_put, puts_put]
  · exact Nat.zero_le _
  · simp only [List.length_append, List.length_singleton, List.length_replicate, length_twoDigits]
    omega
  · exact Nat.zero_le _
  · simp only [List.length_append, List.length_singleton, length_twoDigits]
    omega

/-- The short format is the text of the date. -/
theorem Pen.shortDate_eq (last : ℕ) (hd : d.TwoDigits) {iec : Bool}
    (hblank : ∀ j, p.pos + 5 ≤ j → j < last → p.data j = 32) (hlast : p.pos + 16 ≤ last) :
    p.shortDate iec d = fillOnes 256 ((p.skip 3).puts (d.shortText iec)) := by
  rw [shortDate]
  generalize hq : p.skip 3 = q
  have hqblank : ∀ j, q.pos + 2 ≤ j → j < last → q.data j = 32 := by
    rw [← hq]
    exact hblank
  have hqlast : q.pos + 13 ≤ last := by
    rw [← hq]
    exact hlast
  have htext : d.shortText iec = twoDigits d.month ++ [47] ++ twoDigits d.day ++ List.replicate 1 32 ++
      twoDigits d.hour12 ++ [46] ++ twoDigits d.minute ++ List.replicate (if iec then 1 else 0) 32 ++
        [d.letter] := by
    simp [Date.shortText]
  rw [htext, appendnumber_lt hd.month, puts_put, puts_appendnumber hd.day, puts_skip hqblank,
    puts_appendnumber (Date.hour12_lt hd.hour), puts_put, puts_appendnumber hd.minute,
    puts_skip hqblank, puts_put]
  · simp only [List.length_append, length_twoDigits]
    omega
  · simp only [List.length_append, List.length_singleton, List.length_replicate, length_twoDigits]
    split <;> omega
  · simp only [List.length_append, length_twoDigits]
    omega
  · simp only [List.length_append, List.length_singleton, length_twoDigits]
    omega

end Dates

theorem twoDigits_ne_zero {value x : UInt8} (h : value < 100) (hx : x ∈ twoDigits value) : x ≠ 0 := by
  obtain ⟨htens, hones⟩ := digits_lt h
  obtain rfl | hx := List.mem_cons.mp hx
  · have hnum := (digit_lt htens).2
    rintro heq
    rw [heq] at hnum
    exact absurd hnum (by simp; omega)
  · obtain rfl := List.mem_singleton.mp hx
    have hnum := (digit_lt hones).2
    rintro heq
    rw [heq] at hnum
    exact absurd hnum (by simp; omega)

theorem Date.letter_ne_zero (d : Date) : d.letter ≠ 0 := by
  rw [Date.letter]
  split <;> decide

theorem Date.longText_ne_zero {d : Date} (hd : d.TwoDigits) : ∀ x ∈ d.longText, x ≠ 0 := by
  have hyear : d.year % 100 < 100 := UInt8.mod_lt _ (by decide)
  have hletter := d.letter_ne_zero
  intro x hx
  simp only [Date.longText, List.mem_append, List.mem_cons, List.not_mem_nil, or_false] at hx
  obtain hx | rfl | hx | rfl | hx | rfl | rfl | rfl | hx | rfl | hx | rfl | rfl | rfl := hx
  · exact twoDigits_ne_zero hd.month hx
  · decide
  · exact twoDigits_ne_zero hd.day hx
  · decide
  · exact twoDigits_ne_zero hyear hx
  · decide
  · decide
  · decide
  · exact twoDigits_ne_zero (Date.hour12_lt hd.hour) hx
  · decide
  · exact twoDigits_ne_zero hd.minute hx
  · decide
  · exact hletter
  · decide

theorem Date.shortText_ne_zero {d : Date} (hd : d.TwoDigits) (iec : Bool) :
    ∀ x ∈ d.shortText iec, x ≠ 0 := by
  have hletter := d.letter_ne_zero
  intro x hx
  simp only [Date.shortText, List.mem_append, List.mem_cons, List.mem_replicate, List.not_mem_nil,
    or_false] at hx
  obtain hx | rfl | hx | rfl | hx | rfl | hx | ⟨-, rfl⟩ | rfl := hx
  · exact twoDigits_ne_zero hd.month hx
  · decide
  · exact twoDigits_ne_zero hd.day hx
  · decide
  · exact twoDigits_ne_zero (Date.hour12_lt hd.hour) hx
  · decide
  · exact twoDigits_ne_zero hd.minute hx
  · decide
  · exact hletter

theorem Date.length_shortText (d : Date) (iec : Bool) : (d.shortText iec).length ≤ 13 := by
  cases iec with
  | true => exact Nat.le_refl 13
  | false => exact Nat.le_succ 12

section Shape

variable {dent : Dirent} {last : ℕ} {before : ℕ → UInt8} {p : Pen}

/-- A text behind the type, and the loop behind it. -/
theorem BeforeDate.text (h : BeforeDate dent last before p) {k : ℕ} {xs : List UInt8}
    (hlast : nameStart dent + 17 + k + xs.length ≤ last) (hxs : ∀ x ∈ xs, x ≠ 0) :
    Line dent last before (Pen.fillOnes 256 ((p.skip k).puts xs)).data := by
  have hskip : (p.skip k).pos = nameStart dent + 17 + k := congrArg (· + k) h.pos
  have hline : Line dent last before (p.skip k).data := h.line
  have hpos := Pen.pos_puts (p.skip k) xs
  exact (hline.puts (by omega) (by omega) hxs).fillOnes (by omega) (by omega) 256

/-- The end of a line keeps its name. -/
theorem BeforeDate.lineDate {format : DirFormat} (hd : dent.date.TwoDigits) (iec : Bool)
    (h : BeforeDate dent format.lastused before p) :
    Line dent format.lastused before (p.lineDate iec dent format).data := by
  have hstart := nameStart_bounds dent
  have hpos := h.pos
  have hblank := h.blank
  cases format with
  | cbm =>
    have hlast : p.pos + 5 < 31 := by omega
    rw [Pen.lineDate]
    split
    · exact h.line.update (by omega) hlast (by decide)
    · exact h.line
  | cmdShort =>
    have hlength := dent.date.length_shortText iec
    have hlast : DirFormat.cmdShort.lastused = 41 := rfl
    have heq : p.shortDate iec dent.date = _ := Pen.shortDate_eq 41 hd
      (fun j hj hlt => hblank j (by omega) hlt) (by omega)
    rw [Pen.lineDate, heq]
    exact h.text (by omega) (Date.shortText_ne_zero hd iec)
  | cmdLong =>
    have hlength := dent.date.length_longText
    have hlast : DirFormat.cmdLong.lastused = 63 := rfl
    have heq : p.longDate dent.date = _ := Pen.longDate_eq 63 hd
      (fun j hj hlt => hblank j (by omega) hlt) (by omega)
    rw [Pen.lineDate, heq]
    exact h.text (by omega) (Date.longText_ne_zero hd)

theorem nameEnd_le (name : ℕ → UInt8) : nameEnd name ≤ 16 := by
  have hle : nameEnd name ≤ ((List.range Fat.CBM_NAME_LENGTH).map name).length := List.findIdx_le_length
  rwa [List.length_map, List.length_range] at hle

/-- In front of its end a name has neither a quote nor a 0. -/
theorem ne_of_lt_nameEnd {name : ℕ → UInt8} {i : ℕ} (h : i < nameEnd name) : name i ≠ 34 ∧ name i ≠ 0 := by
  have hle := nameEnd_le name
  have hnot := List.not_of_lt_findIdx h
  rw [List.getElem_map, List.getElem_range] at hnot
  simpa using hnot

/-- Without bit 7 only a shifted 0 is a 0. -/
theorem masked_eq_zero_iff (c : UInt8) : (if c = 0 then 32 else c &&& 127) = 0 ↔ c = 128 := by
  have hlt := c.toNat_lt
  have hmask : (c &&& 127).toNat = c.toNat % 128 := by
    rw [UInt8.toNat_and]
    exact Nat.and_two_pow_sub_one_eq_mod c.toNat 7
  rw [← UInt8.toNat_inj, ← UInt8.toNat_inj (b := 128)]
  simp only [UInt8.reduceToNat]
  split
  · next hzero =>
    rw [hzero]
    decide
  · next hne =>
    have hpos : c.toNat ≠ 0 := fun hzero => hne (UInt8.toNat_inj.mp hzero)
    rw [hmask]
    omega

/-- The byte of a name that is shown as a 0. -/
theorem nameByte_eq_zero_iff {name : ℕ → UInt8} {i : ℕ} :
    nameByte name i = 0 ↔ nameEnd name < i ∧ i < 16 ∧ name i = 128 := by
  rw [nameByte]
  split
  · next hlt =>
    exact iff_of_false (ne_of_lt_nameEnd hlt).2 fun h => absurd h.1 (by omega)
  · split
    · next heq => exact iff_of_false (by decide) fun h => absurd h.1 (by omega)
    · dsimp only
      rw [masked_eq_zero_iff]
      split
      · next hlt => exact ⟨fun h => ⟨by omega, hlt, h⟩, fun h => h.2.2⟩
      · next hge => exact iff_of_false (by decide) fun h => hge h.2.1

end Shape

/-- What the listing needs of a line: it is written up to `last`, the only zero behind its number is the
one at its end, and the name is shown between quotes as far as it goes. -/
structure LineShape (dent : Dirent) (last : ℕ) (before data : ℕ → UInt8) : Prop where
  outside : ∀ j, last < j → data j = before j
  terminator : data last = 0
  nonzero : ∀ j, 4 ≤ j → j < last → data j ≠ 0
  quotes : data (nameStart dent - 1) = 34 ∧ data (nameStart dent + nameEnd dent.name) = 34
  name : ∀ i < nameEnd dent.name, data (nameStart dent + i) = dent.name i

/-- A line has its shape unless there is a shifted 0 behind the end of the name. -/
theorem createentry_iff (iec : Bool) {dent : Dirent} (format : DirFormat) (c : Cursor)
    (htype : dent.typeflags &&& 15 < 12) (hd : dent.date.TwoDigits) :
    LineShape dent (createentry iec dent format c).lastused c.data (createentry iec dent format c).data ↔
      ∀ i, nameEnd dent.name < i → i < 16 → dent.name i ≠ 128 := by
  rw [createentry_eq]
  dsimp only
  have hstart := nameStart_bounds dent
  have hend := nameEnd_le dent.name
  have hlast := (Listing.lastused_le format).1
  have hline := (lineBody_beforeDate format c.data htype).lineDate hd iec
  constructor
  · intro hshape i hi hlt heq
    have hzero : nameByte dent.name i = 0 := nameByte_eq_zero_iff.mpr ⟨hi, hlt, heq⟩
    exact hshape.nonzero (nameStart dent + i) (by omega) (by omega)
      ((hline.name i (by omega)).trans hzero)
  · intro hname
    refine ⟨hline.outside, hline.terminator, fun j hj hlt => ?_, ⟨hline.quote, ?_⟩, fun i hi => ?_⟩
    · by_cases hin : nameStart dent ≤ j ∧ j < nameStart dent + 17
      · have hbyte := hline.name (j - nameStart dent) (by omega)
        rw [Nat.add_sub_cancel' hin.1] at hbyte
        rw [hbyte]
        intro hzero
        obtain ⟨hgt, hlt, heq⟩ := nameByte_eq_zero_iff.mp hzero
        exact hname _ hgt hlt heq
      · exact hline.others j hj hlt (by omega)
    · rw [hline.name _ (by omega), nameByte, if_neg (Nat.lt_irrefl _), if_pos rfl]
    · rw [hline.name i (by omega), nameByte, if_pos hi]

/-- A line for the file `A`. -/
theorem createentry_a :
    let dent : Dirent := ⟨fun i => if i = 0 then 65 else 0, 130, 1, 255, ⟨99, 12, 31, 23, 59⟩, false, []⟩
    let c : Cursor := ⟨fun _ => 7, 0, 0, 0, false, true, false, false⟩
    LineShape dent 63 c.data (createentry true dent .cmdLong c).data := by
  intro dent c
  refine (createentry_iff true .cmdLong c (by decide) ⟨by decide, by decide, by decide, by decide⟩).mpr ?_
  intro i hi hlt
  dsimp only [dent]
  split <;> decide

/-- Behind the end of the name `A` there is a shifted 0. -/
theorem not_createentry_shape : ¬∀ (iec : Bool) (dent : Dirent) (format : DirFormat) (c : Cursor),
    dent.typeflags &&& 15 < 12 → dent.date.TwoDigits →
      LineShape dent (createentry iec dent format c).lastused c.data (createentry iec dent format c).data := by
  intro h
  have hshape := h false
    ⟨fun i => if i = 0 then 65 else if i = 2 then 128 else 0, 130, 1, 255, ⟨99, 12, 31, 23, 59⟩, false, []⟩
    .cbm ⟨fun _ => 7, 0, 0, 0, false, true, false, false⟩ (by decide)
    ⟨by decide, by decide, by decide, by decide⟩
  exact hshape.nonzero 10 (by decide) (by decide) (by decide)

end NoDiskEmu.Dos
