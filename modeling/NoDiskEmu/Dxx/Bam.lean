import NoDiskEmu.Dxx.Geometry
import NoDiskEmu.Library.Bits
import NoDiskEmu.Library.Memory

/-! The block availability map of mounted Dxx images and the two write-back buffers through which
`d64ops.c` accesses it.  Outcomes that the module does not decide itself are inputs: `io` gives the
outcome of each coming access to an image file, and `sysFree` that of each coming
`alloc_system_buffer`. -/

namespace NoDiskEmu.Dxx

open Library

/-- The message on the error channel: `current_error` and the two numbers behind it. -/
structure DosError where
  code : ℕ
  track : ℕ
  sector : ℕ
  deriving DecidableEq, Repr

def ERROR_OK : ℕ := 0
def ERROR_NO_CHANNEL : ℕ := 70
def ERROR_DISK_FULL : ℕ := 72

/-- `buffer_t` as a BAM buffer uses it: `pvt.bam`, `mustflush`, the 256 data bytes, and its place in
`buffers`.  Partition 255 marks a buffer without valid contents. -/
structure BamBuffer where
  part : ℕ
  track : ℕ
  sector : ℕ
  mustflush : Bool
  data : ℕ → UInt8
  slot : ℕ

/-- The parts of `partition_t` that belong to a mounted image; `image` is the content of the image
file and `writable` its `FA_WRITE` flag. -/
structure Partition where
  imagetype : ImageType
  d64data : Param
  image : ℕ → UInt8
  writable : Bool

/-- The outcome of an access to an image file.  A transfer that does not complete leaves `junk` in
its target; one that fails also leaves the message of `parse_error`. -/
inductive Io
  | ok
  | short (junk : ℕ → UInt8)
  | failed (error : DosError) (junk : ℕ → UInt8)

/-- `errorcache`. -/
structure ErrorCache where
  part : ℕ
  track : ℕ
  errors : ℕ → UInt8

/-- The global variables of `d64ops.c` and the ones it shares with the rest of the program.
`bam_buffer` is not NULL here; `bam_buffer2` may be. -/
structure State where
  partition : ℕ → Partition
  maxPart : ℕ
  bamBuffer : BamBuffer
  bamBuffer2 : Option BamBuffer
  errorcache : ErrorCache
  scratch : ℕ → UInt8
  error : DosError
  io : ℕ → Io
  sysFree : ℕ → Option ((ℕ → UInt8) × ℕ)

namespace State

def type (s : State) (part : ℕ) : DxxType := (s.partition part).imagetype.type

/-- `partition[part].imagetype == D64_TYPE_DNP`. -/
def isDnp (s : State) (part : ℕ) : Bool := (s.partition part).imagetype = ⟨.dnp, false⟩

/-- `get_param(part, LAST_TRACK)`. -/
def lastTrack (s : State) (part : ℕ) : ℕ := (s.partition part).d64data.lastTrack

def image (s : State) (part : ℕ) : ℕ → UInt8 := (s.partition part).image

def setImage (s : State) (part : ℕ) (image : ℕ → UInt8) : State :=
  { s with partition := fun p => if p = part then { s.partition p with image } else s.partition p }

/-- `sector_offset(part, track, sector)`. -/
def offset (s : State) (part track sector : ℕ) : ℕ := sectorOffset (s.type part) track sector

/-- `set_error_ts`. -/
def setErrorTs (s : State) (code track sector : ℕ) : State := { s with error := ⟨code, track, sector⟩ }

/-- `set_error`. -/
def setError (s : State) (code : ℕ) : State := s.setErrorTs code 0 0

def nextIo (s : State) : State := { s with io := fun n => s.io (n + 1) }

end State

/-- `image_read`: the result code, the target buffer `buf` after the transfer, and the state. -/
def imageRead (s : State) (part offset bytes : ℕ) (buf : ℕ → UInt8) : ℕ × (ℕ → UInt8) × State :=
  match s.io 0 with
  | .ok => (0, Memory.write buf 0 bytes fun i => s.image part (offset + i), s.nextIo)
  | .short junk => (1, Memory.write buf 0 bytes junk, s.nextIo)
  | .failed error junk => (2, Memory.write buf 0 bytes junk, { s.nextIo with error })

/-- `image_write`. -/
def imageWrite (s : State) (part offset bytes : ℕ) (data : ℕ → UInt8) : ℕ × State :=
  match s.io 0 with
  | .ok => (0, s.nextIo.setImage part (Memory.write (s.image part) offset bytes data))
  | .short junk => (1, s.nextIo.setImage part (Memory.write (s.image part) offset bytes junk))
  | .failed error junk =>
    (2, { s.nextIo.setImage part (Memory.write (s.image part) offset bytes junk) with error })

/-- `bam_buffer_flush`: the buffer is passed and returned by value. -/
def bamBufferFlush (s : State) (buf : BamBuffer) : ℕ × BamBuffer × State :=
  if buf.mustflush && buf.part < s.maxPart then
    let w := imageWrite s buf.part (s.offset buf.part buf.track buf.sector) 256 buf.data
    (w.1, { buf with mustflush := false }, w.2)
  else (0, buf, s)

/-- `bam_buffer->cleanup(bam_buffer)`. -/
def flushBam (s : State) : ℕ × State :=
  let f := bamBufferFlush s s.bamBuffer
  (f.1, { f.2.2 with bamBuffer := f.2.1 })

/-- `bam_buffer2->cleanup(bam_buffer2)`, if there is a second buffer. -/
def flushBam2 (s : State) : ℕ × State :=
  match s.bamBuffer2 with
  | none => (0, s)
  | some b =>
    let f := bamBufferFlush s b
    (f.1, { f.2.2 with bamBuffer2 := some f.2.1 })

/-- `d64_bam_commit`.  The results of the two writes are collected and then dropped. -/
def d64BamCommit (s : State) : ℕ × State :=
  let f := flushBam s
  let g := flushBam2 f.2
  (0, g.2)

/-- `bam_buffer_alloc(&bam_buffer2)`: the result is 0 when a buffer was free. -/
def bamBufferAlloc2 (s : State) : ℕ × State :=
  let next := { s with sysFree := fun n => s.sysFree (n + 1) }
  match s.sysFree 0 with
  | none => (1, { next.setError ERROR_NO_CHANNEL with bamBuffer2 := none })
  | some (data, slot) => (0, { next with bamBuffer2 := some ⟨255, 0, 0, false, data, slot⟩ })

/-- `bam_buffer_swap`; without a second buffer there is nothing to swap. -/
def bamBufferSwap (s : State) : State :=
  match s.bamBuffer2 with
  | none => s
  | some b => { s with bamBuffer := b, bamBuffer2 := some s.bamBuffer }

/-- `bam_buffer_match`. -/
def bamBufferMatch (buf : BamBuffer) (part track sector : ℕ) : Bool :=
  buf.part = part && buf.track = track && buf.sector = sector

/-- `bamdata_t`. -/
inductive BamData
  | bitfield | freecount
  deriving DecidableEq

/-- `type == BAM_BITFIELD ? 1 : 0`. -/
def BamData.skip : BamData → ℕ
  | .bitfield => 1
  | .freecount => 0

/-- The loop of `move_bam_window` over the BAM sectors of D80 and D82 images: 50 tracks each, three
sectors apart.  `fuel` bounds its rounds. -/
def d80Window : ℕ → ℕ → ℕ → ℕ × ℕ
  | 0, s, track => (s, track)
  | fuel + 1, s, track => if track > 50 then d80Window fuel (s + 3) (track - 50) else (s, track)

/-- The switch of `move_bam_window`: the track and sector of the BAM sector for a track, and the
position of the track's bytes in it. -/
def bamPosition (type : DxxType) (track : ℕ) (data : BamData) : ℕ × ℕ × ℕ :=
  match type with
  | .d71 =>
    if track > 35 ∧ data = .bitfield then (53, 0, (track - 36) * 3 % 256)
    else if track > 35 then (18, 0, (track - 36 + 0xdd) % 256)
    else (18, 0, (4 * track + data.skip) % 256)
  | .d81 =>
    (40, if track < 41 then 1 else 2,
      (10 + (if track > 40 then track - 40 else track) * 6 + data.skip) % 256)
  | .dnp => (1, (2 + track / 8) % 256, track % 8 * 32)
  | .d80 | .d82 =>
    let w := d80Window track 0 track
    (38, w.1, (1 + 5 * w.2 + data.skip) % 256)
  | .d41 | .none => (18, 0, (4 * track + data.skip) % 256)

/-- The last part of `move_bam_window`: flush the target buffer and read the BAM sector into it. -/
def loadBam (s : State) (part track sector : ℕ) : ℕ × State :=
  let f := flushBam s
  if f.1 ≠ 0 then (1, f.2)
  else
    let s := f.2
    let r := imageRead s part (s.offset part track sector) 256 s.bamBuffer.data
    let s := { r.2.2 with bamBuffer := { s.bamBuffer with data := r.2.1 } }
    if r.1 ≠ 0 then (r.1, s)
    else (0, { s with bamBuffer := { s.bamBuffer with part, track, sector } })

/-- The part of `move_bam_window` before the read: choose the buffer that takes the sector. -/
def chooseBam (s : State) : State :=
  match s.bamBuffer2 with
  | some _ => bamBufferSwap s
  | none =>
    if s.bamBuffer.part ≠ 255 then
      let a := bamBufferAlloc2 s
      if a.1 ≠ 0 then a.2.setError ERROR_OK else bamBufferSwap a.2
    else s

/-- `move_bam_window`: the result code, the position of `*ptr` in the data of `bam_buffer`, and the
state. -/
def moveBamWindow (s : State) (part track : ℕ) (data : BamData) : ℕ × ℕ × State :=
  let w := bamPosition (s.type part) track data
  if bamBufferMatch s.bamBuffer part w.1 w.2.1 then (0, w.2.2, s)
  else
    let s := chooseBam s
    if bamBufferMatch s.bamBuffer part w.1 w.2.1 then (0, w.2.2, s)
    else
      let l := loadBam s part w.1 w.2.1
      (l.1, w.2.2, l.2)

/-- The mask of a sector in its bitmap byte.  DNP has its bitfield reversed. -/
def sectorMask (dnp : Bool) (sector : ℕ) : UInt8 :=
  if dnp then Bits.highMask (sector % 8) else Bits.lowMask (sector % 8)

/-- `is_free`: negative on error, 1 for a free sector and 0 for an allocated one. -/
def isFree (s : State) (part track sector : ℕ) : ℤ × State :=
  let m := moveBamWindow s part track .bitfield
  if m.1 ≠ 0 then (-1, m.2.2)
  else
    let byte := m.2.2.bamBuffer.data (m.2.1 + sector / 8)
    (if Bits.test byte (sectorMask (s.isDnp part) sector) then 1 else 0, m.2.2)

/-- The number of set bits of a byte, added up in pairs, nibbles and halves. -/
def countBits (x : UInt8) : ℕ :=
  let b : UInt8 := (x &&& (0x55 : UInt8)) + ((x >>> (1 : UInt8)) &&& (0x55 : UInt8))
  let b : UInt8 := (b &&& (0x33 : UInt8)) + ((b >>> (2 : UInt8)) &&& (0x33 : UInt8))
  let b : UInt8 := (b &&& (0x0f : UInt8)) + ((b >>> (4 : UInt8)) &&& (0x0f : UInt8))
  b.toNat

/-- The free sectors of a track as the BAM bytes from `pos` on give them: DNP images have no counter
in their BAM. -/
def freeCount (type : DxxType) (data : ℕ → UInt8) (pos : ℕ) : ℕ :=
  if type = .dnp then ((List.range 32).map fun i => countBits (data (pos + i))).sum
  else (data pos).toNat

/-- `sectors_free`. -/
def sectorsFree (s : State) (part track : ℕ) : ℕ × State :=
  if track < 1 ∨ track > s.lastTrack part then (0, s)
  else
    let m := moveBamWindow s part track .freecount
    if m.1 ≠ 0 then (0, m.2.2)
    else (freeCount (s.type part) m.2.2.bamBuffer.data m.2.1, m.2.2)

/-- A byte of `bam_buffer` is replaced and the buffer marked for flushing. -/
def setBamByte (s : State) (pos : ℕ) (value : UInt8) : State :=
  { s with bamBuffer :=
      { s.bamBuffer with mustflush := true, data := Function.update s.bamBuffer.data pos value } }

/-- The counter of a track is changed by `setCount`, which returns `none` to leave it. -/
def adjustCount (s : State) (part track : ℕ) (setCount : UInt8 → Option UInt8) : ℕ × State :=
  let m := moveBamWindow s part track .freecount
  if m.1 ≠ 0 then (1, m.2.2)
  else
    match setCount (m.2.2.bamBuffer.data m.2.1) with
    | none => (0, m.2.2)
    | some count => (0, setBamByte m.2.2 m.2.1 count)

/-- The common body of `allocate_sector` and `free_sector`, once the sector is known to be in the
other state: the bit is changed by `setBit`, and the counter of the track by `setCount`. -/
def flipSector (s : State) (part track sector : ℕ) (setBit : UInt8 → UInt8 → UInt8)
    (setCount : UInt8 → Option UInt8) : ℕ × State :=
  let m := moveBamWindow s part track .bitfield
  if m.1 ≠ 0 then (1, m.2.2)
  else
    let pos := m.2.1 + sector / 8
    let s' := setBamByte m.2.2 pos
      (setBit (m.2.2.bamBuffer.data pos) (sectorMask (s.isDnp part) sector))
    if s.isDnp part then (0, s') else adjustCount s' part track setCount

/-- `allocate_sector`. -/
def allocateSector (s : State) (part track sector : ℕ) : ℕ × State :=
  let f := isFree s part track sector
  if f.1 < 0 then (1, f.2)
  else if f.1 ≠ 0 then
    flipSector f.2 part track sector (fun byte mask => byte &&& ~~~mask)
      fun count => if 0 < count then some (count - 1) else none
  else (0, f.2)

/-- `free_sector`. -/
def freeSector (s : State) (part track sector : ℕ) : ℕ × State :=
  let f := isFree s part track sector
  if f.1 < 0 then (1, f.2)
  else if f.1 = 0 then
    flipSector f.2 part track sector (fun byte mask => byte ||| mask)
      fun count =>
        if count.toNat < sectorsPerTrack (s.type part) track then some (count + 1) else none
  else (0, f.2)

end NoDiskEmu.Dxx
