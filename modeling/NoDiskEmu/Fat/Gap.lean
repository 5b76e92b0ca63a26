import NoDiskEmu.Fat.Seek

/-! Relative files of any size and with any length of the records: what a write behind the end of the
file does. -/

namespace NoDiskEmu.Fat

open Library

namespace State

/-- The last place in the buffer that has a byte to be written. -/
def lastByte (s : State) : ℕ := if s.mustflush then s.lastused else (s.position + 255) % 256

/-- The ranges of the data buffer that `write_data` uses, the first place and the number of bytes of
each. -/
def writeDataRanges (s : State) : List (ℕ × ℕ) :=
  (if s.recordlen + 1 > s.lastByte then [(s.lastByte + 1, s.recordlen + 1 - s.lastByte)] else []) ++
    [(2, uintPred (if s.recordlen ≠ 0 then (s.recordlen + 1) % 256 else s.lastByte))]

/-- The ranges that `fat_file_read` uses; zeros are stripped at places that are bytes. -/
def fatFileReadRanges (s : State) : List (ℕ × ℕ) :=
  [(2, s.fh.available (if s.recordlen ≠ 0 then s.recordlen else 254)), (2, 1)]

/-- The ranges that `fat_file_write` uses for a relative file. -/
def fatFileWriteRanges (s : State) : List (ℕ × ℕ) :=
  s.writeDataRanges ++
    if s.fptr > s.fh.size - s.headersize then
      (2, 1) :: (3, 253) ::
        { s with mustflush := false, lastused := s.recordlen, position := (s.recordlen + 2) % 256 }.writeDataRanges
    else []

/-- The ranges are inside of the 256 bytes of the buffer. -/
def Within (ranges : List (ℕ × ℕ)) : Prop := ∀ p ∈ ranges, p.1 + p.2 ≤ 256

/-- `fat_file_write` came to its end: the record is in its place, the bytes between the old end of the
file and the record are filled with blank records, and no other byte has changed. -/
structure GapFilled (s s' : State) : Prop where
  ends : s'.hung = false
  size : s'.fh.size = max s.fh.size (s.headersize + s.fptr + s.recordlen)
  record : ∀ i < s.recordlen, s'.fh.bytes (s.headersize + s.fptr + i) =
    if 2 + i ≤ s.lastByte then s.data (2 + i) else 0
  gap : ∀ o, s.fh.size ≤ o → o < s.headersize + s.fptr →
    s'.fh.bytes o = if (o - s.fh.size) % s.recordlen = 0 then 255 else 0
  other : ∀ o, o < s.fh.size ∧ o < s.headersize + s.fptr ∨ s.headersize + s.fptr + s.recordlen ≤ o →
    s'.fh.bytes o = s.fh.bytes o

/-- A write and a read of the buffer do what they should, and stay inside of it. -/
structure Bounded (s : State) : Prop where
  read : Within s.fatFileReadRanges
  write : Within s.fatFileWriteRanges
  success : s.fatFileWrite.1 = false
  filled : s.GapFilled s.fatFileWrite.2

/-- A relative file with records of `r` bytes. -/
structure RelFile (s : State) (r : ℕ) : Prop where
  noFault : s.NoFault
  recordlen : s.recordlen = r
  pos : 1 ≤ r
  le : r ≤ 255
  allocated : s.allocated = true
  refill : s.refill = .fatFileSync
  writable : s.writable = true
  size : s.headersize ≤ s.fh.size
  start : s.headersize ≤ s.fh.pointer

/-- A relative file that is open: the file pointer is right for a record at the end of the file. -/
structure Rel (s : State) (r : ℕ) : Prop extends RelFile s r where
  atEnd : s.fptr + s.headersize = s.fh.size → s.fh.pointer = s.fh.size

variable {s : State} {r : ℕ}

/-- The file pointer goes to the record. -/
theorem Rel.reposition (h : s.Rel r) :
    ∃ fh : File, (if s.fptr ≠ s.fh.size - s.headersize then s.fLseek (s.headersize + s.fptr)
        else (.ok, s)) = (.ok, s.setFh fh) ∧
      fh.bytes = s.fh.bytes ∧ fh.pointer = s.headersize + s.fptr ∧
      fh.size = max s.fh.size (s.headersize + s.fptr) := by
  have hsize := h.size
  by_cases hend : s.fptr = s.fh.size - s.headersize
  · have hpointer := h.atEnd (by omega)
    rw [if_neg (not_not.mpr hend)]
    exact ⟨s.fh, rfl, rfl, by omega, by omega⟩
  · rw [if_pos hend, fLseek_ok h.noFault, h.writable]
    exact ⟨_, rfl, rfl, rfl, rfl⟩

/-- What is written to the file. -/
theorem Rel.writeData (h : s.Rel r) :
    s.writeData = (false, s.written (Memory.write s.data (s.lastByte + 1) (r + 1 - s.lastByte) fun _ => 0)
      (uintPred ((r + 1) % 256))) := by
  have hlast : (if s.mustflush then s.lastused else (s.position + 255) % 256) = s.lastByte := rfl
  rw [writeData_ok h.noFault hlast, h.recordlen, if_pos (Nat.ne_of_gt h.pos)]

theorem Rel.written (h : s.Rel r) (data : ℕ → UInt8) (n : ℕ) : (s.written data n).Rel r := by
  have hstart := h.start
  have hsize := h.size
  refine { h with size := ?_, start := ?_, atEnd := fun hend => ?_ }
  · exact hsize.trans (Nat.le_max_left _ _)
  · exact hstart.trans (Nat.le_add_right _ _)
  · refine Eq.trans ?_ hend
    show s.fh.pointer + n = s.fh.pointer + n - s.headersize + s.headersize
    omega

/-- The state in which a round of the loop writes a blank record. -/
def round (s : State) (r : ℕ) : State := { s with lastused := r, position := (r + 2) % 256 }

theorem Rel.round (h : s.Rel r) : (s.round r).Rel r := { h with }

/-- One round of the loop. -/
theorem Rel.fillBytes_succ (h : s.Rel r) (fuel : ℕ) {i : ℕ} (hi : i ≠ 0) :
    State.fillBytes (fuel + 1) i s =
      if i < r then (false, { s with hung := true }) else
        State.fillBytes fuel (i - r) ((s.round r).written
          (Memory.write s.data ((s.round r).lastByte + 1) (r + 1 - (s.round r).lastByte) fun _ => 0)
          (uintPred ((r + 1) % 256))) := by
  have hlen : (if s.recordlen ≠ 0 then s.recordlen else min i 254) = r := by
    rw [h.recordlen, if_pos (Nat.ne_of_gt h.pos)]
  have hwrite : ({ s with lastused := r, position := (r + 2) % 256 } : State).writeData = _ := h.round.writeData
  rw [State.fillBytes, if_neg hi]
  dsimp only
  rw [hlen, hwrite, if_neg Bool.false_ne_true]
  rfl

/-- The loop keeps the file open, also when it does not come to its end. -/
theorem Rel.fillBytes (h : s.Rel r) (fuel i : ℕ) :
    (State.fillBytes fuel i s).1 = false ∧ (State.fillBytes fuel i s).2.Rel r := by
  induction fuel generalizing i s with
  | zero =>
    rw [State.fillBytes]
    split
    · exact ⟨rfl, h⟩
    · exact ⟨rfl, { h with }⟩
  | succ fuel ih =>
    by_cases hi : i = 0
    · rw [State.fillBytes, if_pos hi]
      exact ⟨rfl, h⟩
    · rw [h.fillBytes_succ fuel hi]
      split
      · exact ⟨rfl, { h with }⟩
      · exact ih (h.round.written _ _) _

/-- The loop runs on if the gap has not room for a number of records. -/
theorem Rel.fillBytes_hung (h : s.Rel r) {fuel i : ℕ} (hi : ¬r ∣ i) :
    (State.fillBytes fuel i s).2.hung = true := by
  have hne : i ≠ 0 := by
    rintro rfl
    exact hi (Nat.dvd_zero r)
  induction fuel generalizing i s with
  | zero =>
    rw [State.fillBytes, if_neg hne]
  | succ fuel ih =>
    rw [h.fillBytes_succ fuel hne]
    split
    · rfl
    · next hlt =>
      have hrest : ¬r ∣ i - r := by
        intro hdvd
        have hsum := Nat.dvd_add hdvd (Nat.dvd_refl r)
        rw [Nat.sub_add_cancel (Nat.le_of_not_lt hlt)] at hsum
        exact hi hsum
      refine ih (h.round.written _ _) hrest ?_
      intro hzero
      rw [hzero] at hrest
      exact hrest (Nat.dvd_zero r)

/-- The bytes of blank records. -/
def filler (r i : ℕ) : UInt8 := if i % r = 0 then 255 else 0

theorem write_filler {m : ℕ → UInt8} {p n : ℕ} {data : ℕ → UInt8} (hdata : ∀ i < r, data i = filler r i) :
    Memory.write (Memory.write m p r data) (p + r) (n * r) (filler r) = Memory.write m p ((n + 1) * r) (filler r) := by
  have hsucc : (n + 1) * r = n * r + r := Nat.succ_mul n r
  funext o
  by_cases hrest : p + r ≤ o ∧ o < p + r + n * r
  · have hmod : (o - (p + r)) % r = (o - p) % r := by
      rw [Nat.mod_eq_sub_mod (show o - p ≥ r by omega), Nat.sub_sub]
    rw [Memory.write, if_pos hrest, Memory.write, if_pos (by omega), filler, filler, hmod]
  · rw [Memory.write, if_neg hrest]
    by_cases hfirst : p ≤ o ∧ o < p + r
    · rw [Memory.write, if_pos hfirst, Memory.write, if_pos (by omega), hdata _ (by omega)]
    · rw [Memory.write, if_neg hfirst, Memory.write, if_neg (by omega)]

/-- A round writes one blank record. -/
theorem Rel.fillBytes_record (h : s.Rel r) (hle : r ≤ 254) (hflush : s.mustflush = false) (fuel n : ℕ) :
    State.fillBytes (fuel + 1) ((n + 1) * r) s = State.fillBytes fuel (n * r) ((s.round r).written s.data r) := by
  have hpos := h.pos
  have hsucc : (n + 1) * r = n * r + r := Nat.succ_mul n r
  have hlast : (s.round r).lastByte = r + 1 := by
    rw [lastByte, show (s.round r).mustflush = false from hflush, if_neg Bool.false_ne_true]
    show ((r + 2) % 256 + 255) % 256 = r + 1
    omega
  rw [h.fillBytes_succ fuel (by omega), if_neg (by omega), hlast, Nat.sub_self,
    Memory.write_same fun i hi => absurd hi (Nat.not_lt_zero i), Nat.mod_eq_of_lt (by omega),
    uintPred_succ (by omega), hsucc, Nat.add_sub_cancel]

/-- The loop ends after the gap was filled. -/
theorem Rel.fillBytes_exact (h : s.Rel r) (hle : r ≤ 254) (hflush : s.mustflush = false)
    (hdata : ∀ i < r, s.data (2 + i) = filler r i) (hpointer : s.fh.pointer ≤ s.fh.size) (n : ℕ) {fuel : ℕ}
    (hfuel : n * r ≤ fuel) :
    (State.fillBytes fuel (n * r) s).2.hung = s.hung ∧
      (State.fillBytes fuel (n * r) s).2.fh.bytes = Memory.write s.fh.bytes s.fh.pointer (n * r) (filler r) ∧
      (State.fillBytes fuel (n * r) s).2.fh.size = max s.fh.size (s.fh.pointer + n * r) := by
  induction n generalizing s fuel with
  | zero =>
    have hstop : State.fillBytes fuel (0 * r) s = (false, s) := by
      rw [Nat.zero_mul]
      cases fuel with
      | zero => rw [State.fillBytes, if_pos rfl]
      | succ fuel => rw [State.fillBytes, if_pos rfl]
    rw [hstop, Nat.zero_mul]
    exact ⟨rfl, (Memory.write_same fun i hi => absurd hi (Nat.not_lt_zero i)).symm, (Nat.max_eq_left hpointer).symm⟩
  | succ n ih =>
    have hpos := h.pos
    have hsucc : (n + 1) * r = n * r + r := Nat.succ_mul n r
    obtain ⟨fuel, rfl⟩ := Nat.exists_eq_add_of_le' (show 1 ≤ fuel by omega)
    rw [h.fillBytes_record hle hflush]
    obtain ⟨hhung, hbytes, hsize⟩ := ih (s := (s.round r).written s.data r) (h.round.written _ _) rfl hdata
      (Nat.le_max_right _ _) (show n * r ≤ fuel by omega)
    refine ⟨hhung, hbytes.trans (write_filler hdata), hsize.trans ?_⟩
    show max (max s.fh.size (s.fh.pointer + r)) (s.fh.pointer + r + n * r) = _
    omega

/-- The end of `fat_file_write` puts the pointer to the end of the file. -/
theorem Rel.endGap {f : Bool × State} (h : f.2.Rel r) (hok : f.1 = false) :
    (State.endGap f).1 = false ∧ (State.endGap f).2.Rel r ∧ (State.endGap f).2.hung = f.2.hung ∧
      (State.endGap f).2.fh.bytes = f.2.fh.bytes ∧ (State.endGap f).2.fh.size = f.2.fh.size := by
  obtain ⟨failed, s⟩ := f
  subst hok
  have hsize := h.size
  have hseek : State.endGap (false, s) =
      (false, { s.setFh (s.fh.seek s.fh.size) with fptr := s.fh.size - s.headersize }) := by
    rw [State.endGap, if_neg Bool.false_ne_true, fLseek_ok h.noFault, h.writable]
    rfl
  rw [hseek]
  refine ⟨rfl, { h with size := ?_, start := ?_, atEnd := fun _ => ?_ }, rfl, rfl, Nat.max_self _⟩
  · exact hsize.trans (Nat.le_max_left _ _)
  · exact hsize
  · exact (Nat.max_self _).symm

/-- The gap begins at the old end of the file. -/
theorem Rel.gap (h : s.Rel r) (fptr : ℕ) : (s.gap (s.fh.seek (s.headersize + fptr)) fptr).Rel r := by
  have hsize := h.size
  refine { h with size := ?_, start := ?_, atEnd := fun hend => ?_ }
  · exact hsize.trans (Nat.le_max_left _ _)
  · exact Nat.le_add_right _ _
  · exact (Nat.add_comm _ _).trans hend

/-- The file after the record was written, at the place `fh` points to. -/
def recorded (s : State) (fh : File) (r : ℕ) : State :=
  (s.setFh fh).written (Memory.write s.data (s.lastByte + 1) (r + 1 - s.lastByte) fun _ => 0)
    (uintPred ((r + 1) % 256))

/-- `fat_file_write` writes the record and fills the gap before it. -/
theorem Rel.fatFileWrite_eq (h : s.Rel r) :
    ∃ fh : File, fh.bytes = s.fh.bytes ∧ fh.pointer = s.headersize + s.fptr ∧
      fh.size = max s.fh.size (s.headersize + s.fptr) ∧ (s.recorded fh r).Rel r ∧
      s.fatFileWrite =
        if s.fptr > s.fh.size - s.headersize then
          State.endGap (State.fillBytes (s.fptr - (s.fh.size - s.headersize)) (s.fptr - (s.fh.size - s.headersize))
            ((s.recorded fh r).gap ((s.recorded fh r).fh.seek (s.headersize + (s.fh.size - s.headersize)))
              (s.fh.size - s.headersize)))
        else (false, s.recorded fh r) := by
  obtain ⟨fh, hseek, hbytes, hpointer, hsize⟩ := h.reposition
  have hset : (s.setFh fh).Rel r := by
    refine { h with size := ?_, start := ?_, atEnd := fun hend => ?_ }
    · show s.headersize ≤ fh.size
      omega
    · show s.headersize ≤ fh.pointer
      omega
    · show fh.pointer = fh.size
      have hend' : s.fptr + s.headersize = fh.size := hend
      omega
  have hrecorded : (s.recorded fh r).Rel r := hset.written _ _
  refine ⟨fh, hbytes, hpointer, hsize, hrecorded, ?_⟩
  rw [State.fatFileWrite]
  dsimp only
  rw [hseek, if_neg (not_not.mpr rfl), hset.writeData]
  dsimp only
  rw [if_neg Bool.false_ne_true]
  split
  · exact fillGap_eq hrecorded.noFault hrecorded.writable _ _
  · rfl

theorem Rel.fatFileWrite (h : s.Rel r) : s.fatFileWrite.1 = false ∧ s.fatFileWrite.2.Rel r := by
  obtain ⟨fh, -, -, -, hrecorded, heq⟩ := h.fatFileWrite_eq
  rw [heq]
  split
  · obtain ⟨hok, hrel⟩ := (hrecorded.gap (s.fh.size - s.headersize)).fillBytes
      (s.fptr - (s.fh.size - s.headersize)) (s.fptr - (s.fh.size - s.headersize))
    exact ⟨(hrel.endGap hok).1, (hrel.endGap hok).2.1⟩
  · exact ⟨rfl, hrecorded⟩

/-- The gap runs on. -/
theorem Rel.fatFileWrite_hung (h : s.Rel r) (hgap : s.fptr > s.fh.size - s.headersize)
    (hdvd : ¬r ∣ s.fptr - (s.fh.size - s.headersize)) : s.fatFileWrite.2.hung = true := by
  obtain ⟨fh, -, -, -, hrecorded, heq⟩ := h.fatFileWrite_eq
  have hstart := hrecorded.gap (s.fh.size - s.headersize)
  obtain ⟨hok, hrel⟩ := hstart.fillBytes (s.fptr - (s.fh.size - s.headersize)) (s.fptr - (s.fh.size - s.headersize))
  rw [heq, if_pos hgap]
  exact (hrel.endGap hok).2.2.1.trans (hstart.fillBytes_hung hdvd)

/-- The file after a record of at most 254 bytes was written. -/
theorem recorded_fh (hle : r ≤ 254) (fh : File) :
    (s.recorded fh r).fh = fh.write r fun i => if 2 + i ≤ s.lastByte then s.data (2 + i) else 0 := by
  have hcount : uintPred ((r + 1) % 256) = r := by
    rw [Nat.mod_eq_of_lt (by omega), uintPred_succ (by omega)]
  have hfh : (s.recorded fh r).fh = fh.write (uintPred ((r + 1) % 256)) fun i =>
    Memory.write s.data (s.lastByte + 1) (r + 1 - s.lastByte) (fun _ => 0) (2 + i) := rfl
  have hdata : ∀ i < r, Memory.write s.data (s.lastByte + 1) (r + 1 - s.lastByte) (fun _ => 0) (2 + i) =
      if 2 + i ≤ s.lastByte then s.data (2 + i) else 0 := by
    intro i hi
    rw [Memory.write]
    by_cases hlast : 2 + i ≤ s.lastByte
    · rw [if_neg (by omega), if_pos hlast]
    · rw [if_pos (by omega), if_neg hlast]
  rw [hfh, hcount, File.write, File.write, Memory.write_congr hdata]

/-- The buffer holds a blank record while the gap is filled. -/
theorem gap_data (hpos : 1 ≤ r) (hle : r ≤ 254) (hrecordlen : s.recordlen = r) (fh : File) (fptr : ℕ) :
    ∀ i < r, (s.gap fh fptr).data (2 + i) = filler r i := by
  intro i hi
  show Function.update (Memory.write s.data 3 253 fun _ => 0) 2 (if s.recordlen ≠ 0 then 255 else 0) (2 + i) = _
  cases i with
  | zero =>
    rw [hrecordlen, if_pos (Nat.ne_of_gt hpos), filler, Nat.zero_mod, if_pos rfl]
    rfl
  | succ i =>
    rw [Function.update_of_ne (by omega), show 2 + (i + 1) = 3 + i by omega, Memory.write_inside (by omega), filler,
      Nat.mod_eq_of_lt hi, if_neg (Nat.succ_ne_zero i)]

/-- What is in the file once the record is written: nothing else has changed but what lies between the
old end of the file and the record. -/
theorem recorded_byte (hle : r ≤ 254) {fh : File} (hbytes : fh.bytes = s.fh.bytes)
    (hpointer : fh.pointer = s.headersize + s.fptr) :
    (∀ i < r, (s.recorded fh r).fh.bytes (s.headersize + s.fptr + i) =
        if 2 + i ≤ s.lastByte then s.data (2 + i) else 0) ∧
      ∀ o, o < s.headersize + s.fptr ∨ s.headersize + s.fptr + r ≤ o →
        (s.recorded fh r).fh.bytes o = s.fh.bytes o := by
  rw [recorded_fh hle fh, File.write, hbytes, hpointer]
  dsimp only
  exact ⟨fun i hi => Memory.write_inside hi, fun o ho => Memory.write_outside ho⟩

/-- A record of at most 254 bytes with a gap for a number of records before it. -/
theorem Rel.gapFilled (h : s.Rel r) (hle : r ≤ 254) (hhung : s.hung = false)
    (hgap : s.fptr ≤ s.fh.size - s.headersize ∨ r ∣ s.fptr - (s.fh.size - s.headersize)) :
    s.GapFilled s.fatFileWrite.2 := by
  obtain ⟨fh, hbytes, hpointer, hsize, hrecorded, heq⟩ := h.fatFileWrite_eq
  have hsize' := h.size
  have hlen := h.recordlen
  obtain ⟨hrecord, hother⟩ := recorded_byte (s := s) hle hbytes hpointer
  have hrsize : (s.recorded fh r).fh.size = max s.fh.size (s.headersize + s.fptr + r) := by
    rw [recorded_fh hle fh, File.write]
    dsimp only
    omega
  rw [heq]
  split
  · next hpast =>
    obtain ⟨n, hn⟩ := hgap.resolve_left (by omega)
    rw [Nat.mul_comm] at hn
    have hstart := hrecorded.gap (s.fh.size - s.headersize)
    obtain ⟨hok, hrel⟩ := hstart.fillBytes (s.fptr - (s.fh.size - s.headersize)) (s.fptr - (s.fh.size - s.headersize))
    obtain ⟨hfhung, hfbytes, hfsize⟩ := hstart.fillBytes_exact hle rfl
      (gap_data h.pos hle hrecorded.recordlen _ _) (Nat.le_max_right _ _) n hn.ge
    rw [← hn] at hfhung hfbytes hfsize
    obtain ⟨-, -, hehung, hebytes, hesize⟩ := hrel.endGap hok
    have hplace : (s.recorded fh r).headersize + (s.fh.size - s.headersize) = s.fh.size := by
      show s.headersize + (s.fh.size - s.headersize) = _
      omega
    have hfinal := hebytes.trans (hfbytes.trans (show Memory.write (s.recorded fh r).fh.bytes
      ((s.recorded fh r).headersize + (s.fh.size - s.headersize)) (s.fptr - (s.fh.size - s.headersize)) (filler r) =
        Memory.write (s.recorded fh r).fh.bytes s.fh.size (s.fptr - (s.fh.size - s.headersize)) (filler r) by
          rw [hplace]))
    have hfinalSize := hesize.trans (hfsize.trans (show max (max (s.recorded fh r).fh.size
      ((s.recorded fh r).headersize + (s.fh.size - s.headersize)))
        ((s.recorded fh r).headersize + (s.fh.size - s.headersize) + (s.fptr - (s.fh.size - s.headersize))) =
          max s.fh.size (s.headersize + s.fptr + r) by rw [hplace, hrsize]; omega))
    refine ⟨hehung.trans (hfhung.trans hhung), hfinalSize.trans (by rw [hlen]), ?_, ?_, ?_⟩
    · rw [hlen]
      intro i hi
      rw [← hrecord i hi]
      exact (congrFun hfinal _).trans (Memory.write_outside (by omega))
    · rw [hlen]
      intro o ho ho'
      refine (congrFun hfinal o).trans ?_
      rw [Memory.write, if_pos (by omega), filler]
    · rw [hlen]
      intro o ho
      rw [← hother o (by omega)]
      exact (congrFun hfinal o).trans (Memory.write_outside (by omega))
  · next hpast =>
    refine ⟨hhung, by rw [hrsize, hlen], ?_, ?_, ?_⟩
    · rw [hlen]
      exact hrecord
    · intro o ho ho'
      omega
    · rw [hlen]
      rintro o (⟨-, ho⟩ | ho)
      · exact hother o (.inl ho)
      · exact hother o (.inr ho)

/-! ### The buffer -/

theorem within_append {xs ys : List (ℕ × ℕ)} : Within (xs ++ ys) ↔ Within xs ∧ Within ys :=
  List.forall_mem_append

theorem within_writeDataRanges (hrecordlen : s.recordlen = r) (hpos : 1 ≤ r) (hle : r ≤ 254) :
    Within s.writeDataRanges := by
  rw [writeDataRanges, within_append, hrecordlen]
  constructor
  · split
    · intro p hp
      rw [List.mem_singleton.mp hp]
      dsimp only
      omega
    · intro p hp
      cases hp
  · intro p hp
    rw [List.mem_singleton.mp hp, if_pos (Nat.ne_of_gt hpos), Nat.mod_eq_of_lt (by omega), uintPred_succ (by omega)]
    dsimp only
    omega

/-- With 255 as the length of a record, the count of the bytes that are written is 65535. -/
theorem not_within_writeDataRanges (hrecordlen : s.recordlen = 255) : ¬Within s.writeDataRanges := by
  rw [writeDataRanges, within_append, hrecordlen]
  intro h
  have hcount : 2 + uintPred 0 ≤ 256 := h.2 _ List.mem_cons_self
  exact absurd hcount (by decide)

theorem Rel.bounded_iff (h : s.Rel r) (hhung : s.hung = false) :
    s.Bounded ↔
      r ≤ 254 ∧ (s.fptr ≤ s.fh.size - s.headersize ∨ r ∣ s.fptr - (s.fh.size - s.headersize)) := by
  constructor
  · intro hbounded
    refine ⟨?_, ?_⟩
    · by_contra hlong
      have hle := h.le
      have hwrite := hbounded.write
      rw [fatFileWriteRanges, within_append] at hwrite
      exact not_within_writeDataRanges (by rw [h.recordlen]; omega) hwrite.1
    · by_contra hgap
      rw [not_or, not_le] at hgap
      have hends := hbounded.filled.ends
      rw [h.fatFileWrite_hung hgap.1 hgap.2] at hends
      cases hends
  · rintro ⟨hle, hgap⟩
    refine ⟨?_, ?_, h.fatFileWrite.1, h.gapFilled hle hhung hgap⟩
    · have havailable : s.fh.available r ≤ r := Nat.min_le_left _ _
      rw [fatFileReadRanges, h.recordlen, if_pos (Nat.ne_of_gt h.pos)]
      intro p hp
      rcases List.mem_cons.mp hp with rfl | hp
      · dsimp only
        omega
      · rw [List.mem_singleton.mp hp]
        decide
    · rw [fatFileWriteRanges, within_append]
      refine ⟨within_writeDataRanges h.recordlen h.pos hle, ?_⟩
      split
      · rintro p (_ | ⟨_, _ | ⟨_, hp⟩⟩)
        · decide
        · decide
        · refine within_writeDataRanges ?_ h.pos hle p hp
          exact h.recordlen
      · intro p hp
        cases hp

/-! ### Runs -/

/-- A record was read into the buffer. -/
theorem RelFile.filled (h : s.RelFile r) (want : ℕ) : (s.filled want).Rel r := by
  have hstart := h.start
  refine { h with start := ?_, atEnd := fun hend => ?_ }
  · exact hstart.trans (Nat.le_add_right _ _)
  · have hend' : s.fh.pointer - s.headersize + s.headersize = s.fh.size := hend
    show s.fh.pointer + min want (s.fh.size - s.fh.pointer) = s.fh.size
    omega

theorem Rel.setPosition (h : s.Rel r) (index : ℕ) : (s.setPosition index).Rel r := { h with }

theorem Rel.setError (h : s.Rel r) (error : ℕ) : (s.setError error).Rel r := { h with }

theorem Rel.missing (h : s.Rel r) {position : ℕ} (hpast : s.fh.size < position + s.headersize) :
    (s.missing position).Rel r := by
  refine { h with atEnd := fun hend => ?_ }
  have hend' : position + s.headersize = s.fh.size := hend
  omega

/-- `fat_file_seek` of a buffer that is clean. -/
theorem Rel.seek (h : s.Rel r) (hclean : s.dirty = false) (position index : ℕ) :
    (s.fatFileSeek position index).2.Rel r := by
  by_cases hle : position + s.headersize ≤ s.fh.size
  · rw [fatFileSeek_inside h.noFault hclean h.writable hle]
    have hset : (s.setFh (s.fh.seek (position + s.headersize))).RelFile r :=
      { h with
        size := h.size.trans (Nat.le_max_left _ _)
        start := Nat.le_add_left _ _ }
    exact (hset.filled _).setPosition index
  · rw [fatFileSeek_outside hclean (Nat.lt_of_not_le hle)]
    exact (h.missing (Nat.lt_of_not_le hle)).setPosition index

/-- A write leaves the buffer clean and the header as it is. -/
theorem Rel.fillBytes_clean (h : s.Rel r) (hclean : s.dirty = false) (fuel i : ℕ) :
    (State.fillBytes fuel i s).2.dirty = false ∧ (State.fillBytes fuel i s).2.headersize = s.headersize := by
  induction fuel generalizing i s with
  | zero =>
    rw [State.fillBytes]
    split
    · exact ⟨hclean, rfl⟩
    · exact ⟨hclean, rfl⟩
  | succ fuel ih =>
    by_cases hi : i = 0
    · rw [State.fillBytes, if_pos hi]
      exact ⟨hclean, rfl⟩
    · rw [h.fillBytes_succ fuel hi]
      split
      · exact ⟨hclean, rfl⟩
      · exact ih (h.round.written _ _) rfl _

theorem Rel.endGap_clean {f : Bool × State} (h : f.2.Rel r) (hok : f.1 = false) :
    (State.endGap f).2.dirty = f.2.dirty ∧ (State.endGap f).2.headersize = f.2.headersize := by
  obtain ⟨failed, s⟩ := f
  subst hok
  rw [State.endGap, if_neg Bool.false_ne_true, fLseek_ok h.noFault, if_neg (not_not.mpr rfl)]
  exact ⟨rfl, rfl⟩

theorem Rel.fatFileWrite_clean (h : s.Rel r) :
    s.fatFileWrite.2.dirty = false ∧ s.fatFileWrite.2.headersize = s.headersize := by
  obtain ⟨fh, -, -, -, hrecorded, heq⟩ := h.fatFileWrite_eq
  rw [heq]
  split
  · have hstart := hrecorded.gap (s.fh.size - s.headersize)
    obtain ⟨hok, hrel⟩ := hstart.fillBytes (s.fptr - (s.fh.size - s.headersize)) (s.fptr - (s.fh.size - s.headersize))
    obtain ⟨hdirty, hhead⟩ := hstart.fillBytes_clean rfl
      (s.fptr - (s.fh.size - s.headersize)) (s.fptr - (s.fh.size - s.headersize))
    obtain ⟨hdirty', hhead'⟩ := hrel.endGap_clean hok
    exact ⟨hdirty'.trans hdirty, hhead'.trans hhead⟩
  · exact ⟨rfl, rfl⟩

theorem Rel.fatFileSeek (h : s.Rel r) (position index : ℕ) : (s.fatFileSeek position index).2.Rel r := by
  cases hdirty : s.dirty with
  | false => exact h.seek hdirty position index
  | true =>
    obtain ⟨hok, hrel⟩ := h.fatFileWrite
    obtain ⟨hclean, hhead⟩ := h.fatFileWrite_clean
    have hwrite : s.fatFileWrite = (false, s.fatFileWrite.2) := Prod.ext hok rfl
    rw [fatFileSeek_dirty hdirty hwrite hclean hhead]
    exact hrel.seek hclean position index

theorem Rel.parsePosition (h : s.Rel r) (secondary : UInt8) (command : List UInt8) :
    (s.parsePosition secondary command).Rel r := by
  rw [State.parsePosition]
  split
  · exact h.setError _
  split
  · generalize (if command.length > 3 then (command.getD 4 0).toNat else 1) = pos
    dsimp only
    split
    · exact h.setError _
    · exact h.fatFileSeek _ _
  · exact h.fatFileSeek _ _

/-- The loops keep a relative file open. -/
theorem channel_keeps : channel.Keeps fun s => s.Rel r where
  store h hc := { h with recordlen := hc.trans h.recordlen }
  markDirty h := { h with }
  refill {s} h := by
    show (State.callRefill s).2.Rel r
    rw [State.callRefill, h.refill]
    exact h.fatFileSeek _ _
  find {s s'} h hfind := by
    have hsome : channel.find s = some s := if_pos h.allocated
    rw [hsome] at hfind
    rw [← Option.some.inj hfind]
    exact h

/-- A file that is opened, with the pointer behind its header. -/
theorem rel_startRecords (hio : s.NoFault) (hallocated : s.allocated = true) (hwritable : s.writable = true)
    (hpos : 1 ≤ r) (hle : r ≤ 255) (hpointer : s.fh.pointer < 256) (hsize : s.fh.pointer ≤ s.fh.size) :
    (s.startRecords r).fatFileRead.1 = false ∧ (s.startRecords r).fatFileRead.2.Rel r := by
  have hhead : s.fh.pointer % 256 = s.fh.pointer := Nat.mod_eq_of_lt hpointer
  have hio' : (s.startRecords r).NoFault := hio
  have hfile : (s.startRecords r).RelFile r :=
    ⟨hio, rfl, hpos, hle, hallocated, rfl, hwritable, hhead.trans_le hsize, hhead.le⟩
  rw [fatFileRead_ok hio']
  exact ⟨rfl, hfile.filled _⟩

end State

/-- What is done with a relative file. -/
inductive RelUse
  | position (command : List UInt8)
  | listen (xs : List (UInt8 × Bool))
  | talk (n : ℕ)

/-- The file after a use of it. -/
def RelUse.run (secondary : UInt8) (s : State) : RelUse → State
  | .position command => s.parsePosition secondary command
  | .listen xs =>
    match State.channel.listenLoop s xs with
    | .more s => s
    | .stop s => s
    | .null => s
  | .talk n => (s.talk n).2

theorem State.Rel.use {s : State} {r : ℕ} (h : s.Rel r) (secondary : UInt8) (u : RelUse) :
    (u.run secondary s).Rel r := by
  cases u with
  | position command => exact h.parsePosition secondary command
  | listen xs =>
    have hkeeps := State.channel_keeps.listenLoop h xs
    rw [RelUse.run]
    split
    · next hmore =>
      rw [hmore] at hkeeps
      exact hkeeps
    · next hstop =>
      rw [hstop] at hkeeps
      exact hkeeps
    · exact h
  | talk n =>
    have hkeeps := State.channel_keeps.talkLoop h n
    rw [RelUse.run, State.talk]
    dsimp only
    split
    · next hmore =>
      rw [hmore] at hkeeps
      exact hkeeps
    · next hstop =>
      rw [hstop] at hkeeps
      exact hkeeps
    · exact h

/-- A relative file that was opened with the length `r`: a new one, or one of any size that has a
header. -/
inductive RelOpen (r : ℕ) : State → Prop
  | created (ext : ℕ) (name : ℕ → UInt8) (x00 : Bool) (data bytes : ℕ → UInt8) (pointer : ℕ) :
      RelOpen r ((State.fresh data ⟨bytes, 0, pointer⟩ fun _ => .ok).fatOpenRel ext name x00 r false)
  | existing (ext : ℕ) (name : ℕ → UInt8) (x00 : Bool) (data : ℕ → UInt8) (fh : File)
      (header : (if x00 then P00_HEADER_SIZE else 1) ≤ fh.size) :
      RelOpen r ((State.fresh data fh fun _ => .ok).fatOpenRel ext name x00 r true)

theorem RelOpen.rel {s : State} {r : ℕ} (h : RelOpen r s) (hpos : 1 ≤ r) (hle : r ≤ 255) : s.Rel r := by
  have hopen : ∀ {s t : State} {ext stored : ℕ} {name : ℕ → UInt8} {x00 mode : Bool},
      s.openRecords ext name x00 r mode = (.ok, 1, stored, t) → (t.startRecords r).fatFileRead.2.Rel r →
        (s.fatOpenRel ext name x00 r mode).Rel r := by
    intro s t ext stored name x00 mode hrecords hrel
    have hlength : (if mode = true ∧ r = 0 then stored else r) = r := if_neg fun hzero => absurd hzero.2 (by omega)
    rw [State.fatOpenRel, hrecords]
    dsimp only
    rw [if_neg (by decide), hlength]
    split
    · exact hrel.setError _
    · exact hrel
  cases h with
  | created ext name x00 data bytes pointer =>
    obtain ⟨t, hcreate, ht⟩ := State.createFile_ok (s := State.fresh data ⟨bytes, 0, pointer⟩ fun _ => .ok)
      rfl rfl rfl ext name .rel r
    have heq := ht.eq
    have hlen : t.fh.size < 256 := by
      rw [← File.contents_length, ht.contents, header_length _ hpos]
      split <;> decide
    have hpointer := ht.pointer
    have hrel := State.rel_startRecords (s := t) (by rw [heq]; rfl) (by rw [heq]; rfl) (by rw [heq]; rfl) hpos hle
      (by omega) (by omega)
    exact hopen (by rw [State.openRecords, hcreate]; rfl) hrel.2
  | existing ext name x00 data fh hheader =>
    obtain ⟨t, hrecords, hio, hallocated, hwritable, -, hpointer, hcontents⟩ : ∃ t : State,
        (State.fresh data fh fun _ => .ok).openRecords ext name x00 r true = (.ok, 1, _, t) ∧ t.NoFault ∧
          t.allocated = true ∧ t.writable = true ∧ t.Clean ∧ t.fh.pointer = (if x00 then P00_HEADER_SIZE else 1) ∧
            t.fh.contents = fh.contents := State.openRecords_ok rfl hheader rfl
    have hsize : t.fh.size = fh.size := by
      rw [← File.contents_length, hcontents, File.contents_length]
    have hlen : (if x00 then P00_HEADER_SIZE else 1) < 256 := by
      split <;> decide
    exact hopen hrecords (State.rel_startRecords hio hallocated hwritable hpos hle (by omega) (by omega)).2

theorem RelOpen.uses {s : State} {r : ℕ} (h : s.Rel r) (secondary : UInt8) (us : List RelUse) :
    (us.foldl (RelUse.run secondary) s).Rel r := by
  induction us generalizing s with
  | nil => exact h
  | cons u us ih => exact ih (h.use secondary u)

/-- Wherever the P commands and transfers so far have led to, a write of the buffer comes to its end
with the gap before the record filled and no access outside of the buffer exactly if the record has at
most 254 bytes and the gap has room for a number of records. -/
theorem relFile_bounded_iff {r : ℕ} (hpos : 1 ≤ r) (hle : r ≤ 255) {s₀ s : State} (hopen : RelOpen r s₀)
    (secondary : UInt8) (us : List RelUse) (hs : s = us.foldl (RelUse.run secondary) s₀)
    (hhung : s.hung = false) :
    s.Bounded ↔
      r ≤ 254 ∧ (s.fptr ≤ s.fh.size - s.headersize ∨ r ∣ s.fptr - (s.fh.size - s.headersize)) := by
  have hrel : s.Rel r := by
    rw [hs]
    exact RelOpen.uses (hopen.rel hpos hle) secondary us
  exact hrel.bounded_iff hhung

/-- A file with one byte of data, opened with records of two bytes, and one byte for its second
record. -/
def oddFile : State := (State.fresh (fun _ => 0) ⟨fun _ => 2, 2, 0⟩ fun _ => .ok).fatOpenRel 0 (fun _ => 0) false 2 true

def secondRecord : List RelUse := [.position [80, 2, 2, 0, 1], .listen [(65, false)]]

theorem relFile_not_bounded :
    ¬∀ (r : ℕ) (s₀ s : State) (secondary : UInt8) (us : List RelUse), 1 ≤ r → r ≤ 255 → RelOpen r s₀ →
      s = us.foldl (RelUse.run secondary) s₀ → s.hung = false → s.Bounded := by
  intro h
  have hbounded := h 2 oddFile _ 2 secondRecord (by decide) (by decide)
    (.existing 0 (fun _ => 0) false (fun _ => 0) ⟨fun _ => 2, 2, 0⟩ (by decide)) rfl (by decide)
  exact absurd hbounded.filled.ends (by decide)

/-- A file without data, and one byte for its second record. -/
def evenFile : State := (State.fresh (fun _ => 0) ⟨fun _ => 2, 1, 0⟩ fun _ => .ok).fatOpenRel 0 (fun _ => 0) false 2 true

theorem relFile_bounded_second : (secondRecord.foldl (RelUse.run 2) evenFile).Bounded :=
  (relFile_bounded_iff (by decide) (by decide)
    (.existing 0 (fun _ => 0) false (fun _ => 0) ⟨fun _ => 2, 1, 0⟩ (by decide)) 2 secondRecord rfl (by decide)).mpr
      ⟨by decide, .inr (by decide)⟩

end NoDiskEmu.Fat
